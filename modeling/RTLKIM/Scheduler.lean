import RTLKIM.Lib.Word
import Mathlib.Logic.Function.Basic

/-!
# The scheduler

`scheduler.c`. `sched_wait_thread` and `thread_exit` are taken a statement at a time, and any other call
is one step, up to the scheduling interrupt that it raises. For `sched_create_kernel_thread` and
`create_idle` that leaves out what two CPUs that create threads at the same time do to each other, as no
lock that they share keeps them apart.

Threads are numbered as they are created, and each has one scheduling node, which bears its number; a
queue is the list of its nodes from the head, so `kernel_queue_push` puts a node first and
`kernel_queue_pop` takes the last. The nodes of the `children` queues and of the global table are nodes
of their own and stand as the thread they hold.

`pc` is the statement a thread is at inside `sched_wait_thread` and `thread_exit`, or that it has
yet to raise the scheduling interrupt. The block of a reclaimed thread keeps its values and is not
given to another thread.
-/

namespace RTLKIM

/-- `KERNEL_LOWEST_PRIORITY`. -/
abbrev kernelLowestPriority : ℕ := 63

/-- `KERNEL_HIGHEST_PRIORITY`. -/
abbrev kernelHighestPriority : ℕ := 0

/-- `IDLE_THREAD_PRIORITY`. -/
abbrev idleThreadPriority : ℕ := kernelLowestPriority

/-- `KERNEL_MAIN_TIMER_FREQ`. -/
abbrev kernelMainTimerFreq : ℕ := 200

/-- `THREAD_STATE_E`. -/
inductive ThreadState
  | running
  | ready
  | sleeping
  | dead
  | zombie
  | joining
  | waiting
  deriving DecidableEq

/-- `THREAD_WAIT_TYPE_E`. -/
inductive WaitType
  | sem
  | mutex
  | ioKeyboard
  deriving DecidableEq

/-- `THREAD_TERMINATE_CAUSE_E`. -/
inductive TerminateCause
  | correctly
  | divByZero
  | panic
  deriving DecidableEq

/-- The codes of `OS_RETURN_E` that the scheduler returns. -/
inductive SchedErr
  | noErr
  | unauthorizedAction
  | forbidenPriority
  | malloc
  | nullPointer
  | noSuchId
  deriving DecidableEq

/-- `kernel_panic`, or a dereference of `NULL`. -/
inductive Halt
  | panic
  | nullDeref
  deriving DecidableEq

/-- `kernel_thread_t`. `joiningThread` is a scheduling node; a queue is `none` once deleted. -/
structure Thread where
  tid : ℕ
  ptid : ℕ
  priority : ℕ
  state : ThreadState
  blockType : WaitType
  wakeupTime : ℕ
  joiningThread : Option ℕ
  children : Option (List ℕ)
  cpuAffinity : ℕ
  retVal : ℕ
  returnCause : TerminateCause

/-- `kernel_queue_node_t` without its links. -/
structure QueueNode where
  data : Option ℕ
  priority : ℕ

/-- The queues a scheduling node is linked in: `active_threads_table[cpu][priority]`,
`sleeping_threads_table[cpu]`, `zombie_threads_table`, and the waiting threads of a semaphore or
mutex. -/
inductive Table
  | active (cpu priority : ℕ)
  | sleeping (cpu : ℕ)
  | zombie
  | waiting (type : WaitType) (object : ℕ)
  deriving DecidableEq

/-- The statement a thread is at: in its own code, at the `sched_schedule` that ends a call, in
`sched_wait_thread` of a target, or in `thread_exit`. -/
inductive Pc
  | run
  | sched
  | waitDead (target : ℕ)
  | waitZombie (target : ℕ)
  | waitMarkDead (target : ℕ)
  | waitClean (target : ℕ)
  | waitJoining (target : ℕ)
  | waitRecord (target : ℕ)
  | waitSched (target : ℕ)
  | waitResumed (target : ℕ)
  | exitZombie
  | exitTestInit
  | exitEnter
  | exitPush
  | exitChildren
  | exitDelete
  | exitSearch
  | exitWake (joining : Option ℕ)
  | exitLeave
  | exitSched
  | exited
  deriving DecidableEq

/-- What a thread's last call returned: the code, and what `sched_wait_thread` stored. -/
structure CallRet where
  err : SchedErr
  retVal : Option ℕ
  termCause : Option TerminateCause
  deriving DecidableEq

/-- The scheduler. `creator` is not in the source: it is the thread that created a thread. -/
structure Sched where
  cpuCount : ℕ
  thread : ℕ → Thread
  node : ℕ → QueueNode
  pc : ℕ → Pc
  ret : ℕ → CallRet
  table : Table → List ℕ
  globalTable : List ℕ
  activeThread : ℕ → Option ℕ
  idleThread : ℕ → ℕ
  initThread : ℕ
  threadCount : ℕ
  lastGivenTid : ℕ
  created : ℕ
  freed : ℕ → Bool
  creator : ℕ → Option ℕ

namespace Sched

def setThread (s : Sched) (t : ℕ) (f : Thread → Thread) : Sched :=
  { s with thread := Function.update s.thread t (f (s.thread t)) }

def setState (s : Sched) (t : ℕ) (st : ThreadState) : Sched :=
  s.setThread t fun T => { T with state := st }

def setNode (s : Sched) (n : ℕ) (f : QueueNode → QueueNode) : Sched :=
  { s with node := Function.update s.node n (f (s.node n)) }

def setTable (s : Sched) (q : Table) (l : List ℕ) : Sched :=
  { s with table := Function.update s.table q l }

def goto (s : Sched) (t : ℕ) (p : Pc) : Sched := { s with pc := Function.update s.pc t p }

def returns (s : Sched) (t : ℕ) (r : CallRet) : Sched :=
  { s with ret := Function.update s.ret t r }

/-- A call of `t` that returns at once with a code. -/
def fails (s : Sched) (t : ℕ) (err : SchedErr) : Sched := s.returns t ⟨err, none, none⟩

/-! ## Queues -/

/-- `kernel_queue_push`. -/
def push (s : Sched) (q : Table) (n : ℕ) : Sched := s.setTable q (n :: s.table q)

/-- `kernel_queue_push_prio`: before the first node of no greater priority. -/
def pushPrio (s : Sched) (q : Table) (n priority : ℕ) : Sched :=
  let s := s.setNode n fun x => { x with priority := priority }
  s.setTable q ((s.table q).takeWhile (fun x => priority < (s.node x).priority)
    ++ n :: (s.table q).dropWhile fun x => priority < (s.node x).priority)

/-- The queue after `kernel_queue_pop`. -/
def popped (s : Sched) (q : Table) : Sched := s.setTable q (s.table q).dropLast

/-! ## `select_thread` -/

/-- The thread switched from goes back to its table, unless it is blocked. -/
def requeue (s : Sched) (c prev : ℕ) : Sched :=
  if (s.thread prev).state = .running then
    (s.setState prev .ready).push (.active c (s.thread prev).priority) prev
  else if (s.thread prev).state = .sleeping then
    s.pushPrio (.sleeping c) prev ((s.thread prev).wakeupTime % 2 ^ 32)
  else s

/-- The loop that wakes up sleeping threads, for the nodes there are. -/
def wake (c now : ℕ) : ℕ → Sched → Sched
  | 0, s => s
  | k + 1, s =>
    match (s.table (.sleeping c)).getLast? with
    | none => s
    | some n =>
      match (s.node n).data with
      | none => wake c now k (s.popped (.sleeping c))
      | some t =>
        if (s.thread t).wakeupTime < now then
          wake c now k (((s.popped (.sleeping c)).setState t .ready).push
            (.active c (s.thread t).priority) n)
        else
          (s.popped (.sleeping c)).pushPrio (.sleeping c) n ((s.thread t).wakeupTime % 2 ^ 32)

/-- The first non empty table of a CPU, and the node its `kernel_queue_pop` takes. -/
def firstReady (s : Sched) (c : ℕ) : Option (ℕ × ℕ) :=
  (List.range (kernelLowestPriority + 1)).findSome? fun i =>
    (s.table (.active c i)).getLast?.map fun n => (i, n)

/-- The thread elected, or the panic when there is none. -/
def elect (s : Sched) (c : ℕ) : Except Halt Sched :=
  match s.firstReady c with
  | none => .error .panic
  | some (i, n) =>
    match (s.node n).data with
    | none => .error .panic
    | some t =>
      .ok { (s.popped (.active c i)).setState t .running with
        activeThread := Function.update s.activeThread c (some t) }

def selectThread (s : Sched) (c now : ℕ) : Except Halt Sched :=
  match s.activeThread c with
  | none => .error .nullDeref
  | some prev =>
    let s := s.requeue c prev
    (wake c now (s.table (.sleeping c)).length s).elect c

/-! ## Creation -/

/-- A new thread, with its scheduling node and its place in the global table. -/
def newThread (s : Sched) (T : Thread) : Sched :=
  { s with
    thread := Function.update s.thread s.created T
    node := Function.update s.node s.created ⟨some s.created, 0⟩
    pc := Function.update s.pc s.created .run
    globalTable := s.created :: s.globalTable
    threadCount := add32 s.threadCount 1
    lastGivenTid := add32 s.lastGivenTid 1
    created := s.created + 1 }

/-- `create_idle` on a CPU. -/
def createIdle (s : Sched) (c : ℕ) : Sched :=
  let T : Thread :=
    { tid := s.lastGivenTid, ptid := s.lastGivenTid, priority := idleThreadPriority,
      state := .running, blockType := .sem, wakeupTime := 0, joiningThread := none,
      children := some [], cpuAffinity := c, retVal := 0, returnCause := .correctly }
  { s.newThread T with
    activeThread := Function.update s.activeThread c (some s.created)
    idleThread := Function.update s.idleThread c s.created }

/-- `sched_create_kernel_thread` by `t`; its kernel allocations are the thread, its node, its
`children`, its stack and two nodes more, and `kmallocs` of them succeed before one fails. -/
def createKernelThread (s : Sched) (t priority affinity kmallocs : ℕ) : Sched :=
  if s.cpuCount - 1 < affinity then s.fails t .unauthorizedAction
  else if kernelLowestPriority < priority then s.fails t .forbidenPriority
  else if kmallocs < 2 then s.fails t .malloc
  else if kmallocs < 6 then
    { s.fails t .malloc with lastGivenTid := add32 s.lastGivenTid 1 }
  else
    let n := s.created
    let s := s.setThread t fun T => { T with children := T.children.map (n :: ·) }
    let T : Thread :=
      { tid := add32 s.lastGivenTid 1, ptid := (s.thread t).tid, priority := priority,
        state := .ready, blockType := .sem, wakeupTime := 0, joiningThread := none,
        children := some [], cpuAffinity := affinity, retVal := 0, returnCause := .correctly }
    let s := { (s.newThread T).push (.active affinity priority) n with
      creator := Function.update s.creator n (some t) }
    s.fails t .noErr

/-! ## Calls that block or wake -/

/-- `sched_sleep` up to its `sched_schedule`. -/
def sleep (s : Sched) (t ms now : ℕ) : Sched :=
  ((s.setThread t fun T => { T with
    wakeupTime := (now + ms + 2 ^ 64 - 1000 / kernelMainTimerFreq) % 2 ^ 64
    state := .sleeping }).fails t .noErr).goto t .sched

/-- `sched_lock_thread` and the push of its node on an object's queue. -/
def lock (s : Sched) (t : ℕ) (type : WaitType) (object : ℕ) : Sched :=
  ((s.setThread t fun T => { T with state := .waiting, blockType := type }).push
    (.waiting type object) t).goto t .sched

/-- The pop of a waiter and `sched_unlock_thread` on it, whose errors the callers turn into a
panic. -/
def unlock (s : Sched) (c t : ℕ) (type : WaitType) (object : ℕ) (doSchedule : Bool) :
    Except Halt Sched :=
  match (s.table (.waiting type object)).getLast? with
  | none => .ok s
  | some n =>
    match (s.node n).data with
    | none => .error .panic
    | some x =>
      if x = s.idleThread c then .error .panic
      else if (s.thread x).state ≠ .waiting ∨ (s.thread x).blockType ≠ type then .error .panic
      else
        .ok ((((s.popped (.waiting type object)).setState x .ready).push
          (.active (s.thread x).cpuAffinity (s.thread x).priority) n).goto t
            (if doSchedule then .sched else .run))

/-- `sched_set_priority`. -/
def setPriority (s : Sched) (t priority : ℕ) : Sched :=
  if kernelLowestPriority < priority then s.fails t .forbidenPriority
  else (s.setThread t fun T => { T with priority := priority }).fails t .noErr

/-! ## `sched_wait_thread`, statement by statement -/

def waitDead (s : Sched) (t target : ℕ) : Sched :=
  if (s.thread target).state = .dead then (s.fails t .noSuchId).goto t .run
  else s.goto t (.waitZombie target)

def waitZombie (s : Sched) (t target : ℕ) : Sched :=
  if (s.thread target).state = .zombie then s.goto t (.waitMarkDead target)
  else s.goto t (.waitJoining target)

def waitMarkDead (s : Sched) (t target : ℕ) : Sched :=
  (s.setState target .dead).goto t (.waitClean target)

/-- The queue without the node that holds `t`. -/
def removeData (s : Sched) (q : Table) (t : ℕ) : Sched :=
  s.setTable q ((s.table q).eraseP fun n => (s.node n).data = some t)

/-- `sched_clean_joined_thread` by `t`. -/
def cleanJoinedThread (s : Sched) (t target : ℕ) : Except Halt Sched :=
  match (s.thread t).children with
  | none => .error .panic
  | some l =>
    let s := s.setThread t fun T => { T with children := some (l.erase target) }
    let s := s.removeData .zombie target
    .ok { s with
      globalTable := s.globalTable.erase target
      freed := Function.update s.freed target true
      threadCount := sub32 s.threadCount 1 }

def waitClean (s : Sched) (t target : ℕ) : Except Halt Sched :=
  (s.cleanJoinedThread t target).map fun s' =>
    (s'.returns t ⟨.noErr, some (s.thread target).retVal, none⟩).goto t .run

def waitJoining (s : Sched) (t target : ℕ) : Sched :=
  (s.setState t .joining).goto t (.waitRecord target)

def waitRecord (s : Sched) (t target : ℕ) : Sched :=
  (s.setThread target fun T => { T with joiningThread := some t }).goto t (.waitSched target)

def waitResumed (s : Sched) (t target : ℕ) : Except Halt Sched :=
  (s.cleanJoinedThread t target).map fun s' =>
    (s'.returns t ⟨.noErr, some (s.thread target).retVal, some (s.thread target).returnCause⟩).goto t
      .run

/-! ## `thread_exit`, statement by statement -/

def exitZombie (s : Sched) (t : ℕ) : Sched := (s.setState t .zombie).goto t .exitTestInit

def exitTestInit (s : Sched) (t : ℕ) : Sched :=
  s.goto t (if t = s.initThread then .exitSched else .exitEnter)

def exitPush (s : Sched) (t : ℕ) : Sched := (s.push .zombie t).goto t .exitChildren

/-- A child handed over to init. -/
def adopt (s : Sched) (t x : ℕ) : Except Halt Sched :=
  let s := s.setThread x fun T => { T with ptid := (s.thread s.initThread).tid }
  match (s.thread x).joiningThread with
  | none => .error .nullDeref
  | some j =>
    let s := if (s.node j).data = some t then s.setNode j fun n => { n with data := none } else s
    match (s.thread s.initThread).children with
    | none => .error .panic
    | some l => .ok (s.setThread s.initThread fun T => { T with children := some (x :: l) })

/-- One round of the loop over the children. -/
def exitChildren (s : Sched) (t : ℕ) : Except Halt Sched :=
  match (s.thread t).children with
  | none => .error .panic
  | some l =>
    match l.getLast? with
    | none => .ok (s.goto t .exitDelete)
    | some x => (s.setThread t fun T => { T with children := some l.dropLast }).adopt t x

def exitDelete (s : Sched) (t : ℕ) : Except Halt Sched :=
  if (s.thread t).children = some [] then
    .ok ((s.setThread t fun T => { T with children := none }).goto t .exitSearch)
  else .error .panic

def exitSearch (s : Sched) (t : ℕ) : Sched :=
  s.goto t (.exitWake ((s.thread t).joiningThread.bind fun j => (s.node j).data))

/-- The thread found is tested and made ready; the node pushed is read again. -/
def exitWake (s : Sched) (t : ℕ) : Option ℕ → Except Halt Sched
  | none => .ok (s.goto t .exitLeave)
  | some j =>
    if (s.thread j).state = .joining then
      match (s.thread t).joiningThread with
      | none => .error .panic
      | some n =>
        .ok (((s.setState j .ready).push (.active (s.thread j).cpuAffinity (s.thread j).priority)
          n).goto t .exitLeave)
    else .ok (s.goto t .exitLeave)

/-- The next statement of `t`, which runs on `c`. -/
def stmt (s : Sched) (c now t : ℕ) : Except Halt Sched :=
  match s.pc t with
  | .run => .ok s
  | .sched => (s.goto t .run).selectThread c now
  | .waitDead x => .ok (s.waitDead t x)
  | .waitZombie x => .ok (s.waitZombie t x)
  | .waitMarkDead x => .ok (s.waitMarkDead t x)
  | .waitClean x => s.waitClean t x
  | .waitJoining x => .ok (s.waitJoining t x)
  | .waitRecord x => .ok (s.waitRecord t x)
  | .waitSched x => (s.goto t (.waitResumed x)).selectThread c now
  | .waitResumed x => s.waitResumed t x
  | .exitZombie => .ok (s.exitZombie t)
  | .exitTestInit => .ok (s.exitTestInit t)
  | .exitEnter => .ok (s.goto t .exitPush)
  | .exitPush => .ok (s.exitPush t)
  | .exitChildren => s.exitChildren t
  | .exitDelete => s.exitDelete t
  | .exitSearch => .ok (s.exitSearch t)
  | .exitWake j => s.exitWake t j
  | .exitLeave => .ok (s.goto t .exitSched)
  | .exitSched => (s.goto t .exited).selectThread c now
  | .exited => .error .panic

end Sched

/-- The statements between the `ENTER_CRITICAL` and the `EXIT_CRITICAL` of `thread_exit`. -/
def Pc.critical : Pc → Bool
  | .exitPush | .exitChildren | .exitDelete | .exitSearch | .exitWake _ | .exitLeave => true
  | _ => false

/-- The calls a thread makes. -/
inductive SchedCall
  | create (priority affinity kmallocs : ℕ)
  | sleep (ms : ℕ)
  | lock (type : WaitType) (object : ℕ)
  | unlock (type : WaitType) (object : ℕ) (doSchedule : Bool)
  | setPriority (priority : ℕ)
  | setCause (cause : TerminateCause)
  | schedule
  | wait (target : Option ℕ)
  | exit (ret : Option ℕ)
  deriving DecidableEq

/-- What happens next: a CPU comes up, the thread running on one makes a call or goes on with the
one it is in, or the timer interrupts it. -/
inductive SchedEv
  | initAp (cpu : ℕ)
  | call (cpu now : ℕ) (k : SchedCall)
  | stmt (cpu now : ℕ)
  | timer (cpu now : ℕ)
  deriving DecidableEq

namespace Sched

/-- `thread_wrapper` past the routine, or `sched_terminate_thread`, up to `thread_exit`. -/
def enterExit (s : Sched) (t : ℕ) (ret : Option ℕ) : Sched :=
  (s.setThread t fun T => { T with retVal := ret.getD T.retVal }).goto t .exitZombie

/-- A call of `t`, which runs on `c`; those of several statements are entered. -/
def perform (s : Sched) (c now t : ℕ) : SchedCall → Except Halt Sched
  | .create priority affinity kmallocs => .ok (s.createKernelThread t priority affinity kmallocs)
  | .sleep ms => .ok (s.sleep t ms now)
  | .lock type object => .ok (s.lock t type object)
  | .unlock type object doSchedule => s.unlock c t type object doSchedule
  | .setPriority priority => .ok (s.setPriority t priority)
  | .setCause cause => .ok (s.setThread t fun T => { T with returnCause := cause })
  | .schedule => .ok (s.goto t .sched)
  | .wait none => .ok (s.fails t .nullPointer)
  | .wait (some target) => .ok (s.goto t (.waitDead target))
  | .exit ret => .ok (s.enterExit t ret)

/-- A thread makes a call in its own code only, and the idle threads make none; the target of a wait
is a thread. -/
def MayCall (s : Sched) (c t : ℕ) : SchedCall → Prop
  | .wait (some target) => t ≠ s.idleThread c ∧ s.pc t = .run ∧ target < s.created
  | _ => t ≠ s.idleThread c ∧ s.pc t = .run

instance (s : Sched) (c t : ℕ) : ∀ k, Decidable (s.MayCall c t k)
  | .wait (some _) => inferInstanceAs (Decidable (_ ∧ _ ∧ _))
  | .create _ _ _ | .sleep _ | .lock _ _ | .unlock _ _ _ | .setPriority _ | .setCause _ | .schedule
  | .wait none | .exit _ => inferInstanceAs (Decidable (_ ∧ _))

/-- The steps there can be. The timer does not interrupt a critical section. -/
def Enabled (s : Sched) : SchedEv → Prop
  | .initAp c => c < s.cpuCount ∧ s.activeThread c = none
  | .call c _ k => ∃ t ∈ s.activeThread c, s.MayCall c t k
  | .stmt c _ => ∃ t ∈ s.activeThread c, s.pc t ≠ .run
  | .timer c _ => ∃ t ∈ s.activeThread c, (s.pc t).critical = false

instance (s : Sched) : ∀ e, Decidable (s.Enabled e)
  | .initAp _ => inferInstanceAs (Decidable (_ ∧ _))
  | .call _ _ _ | .stmt _ _ | .timer _ _ => inferInstanceAs (Decidable (∃ t ∈ _, _))

/-- The step of an event, statement by statement. -/
def exec (s : Sched) : SchedEv → Except Halt Sched
  | .initAp c => .ok (s.createIdle c)
  | .call c now k => (s.activeThread c).elim (.error .nullDeref) fun t => s.perform c now t k
  | .stmt c now => (s.activeThread c).elim (.error .nullDeref) fun t => s.stmt c now t
  | .timer c now => s.selectThread c now

def step (s : Sched) (e : SchedEv) : Option Sched :=
  if s.Enabled e then (s.exec e).toOption else none

/-! ## Whole calls -/

/-- `sched_wait_thread` up to its `sched_schedule`. -/
def schedWaitThread (s : Sched) (t target : ℕ) : Except Halt Sched :=
  if (s.thread target).state = .dead then .ok (s.waitDead t target)
  else
    let s := s.waitDead t target
    if (s.thread target).state = .zombie then
      ((s.waitZombie t target).waitMarkDead t target).waitClean t target
    else .ok (((s.waitZombie t target).waitJoining t target).waitRecord t target)

/-- The loop over the children, for one round more than there are. -/
def exitAllChildren (t : ℕ) : ℕ → Sched → Except Halt Sched
  | 0, s => .ok s
  | k + 1, s => do
    let s ← s.exitChildren t
    if s.pc t = .exitChildren then exitAllChildren t k s else .ok s

/-- `thread_exit` and the `select_thread` that ends it. -/
def threadExit (s : Sched) (c now t : ℕ) : Except Halt Sched :=
  let s := (s.exitZombie t).exitTestInit t
  if t = s.initThread then (s.goto t .exited).selectThread c now
  else do
    let s := (s.goto t .exitPush).exitPush t
    let s ← exitAllChildren t ((s.thread t).children.elim 0 List.length + 1) s
    let s ← s.exitDelete t
    let s ← (s.exitSearch t).exitWake t
      ((s.thread t).joiningThread.bind fun j => (s.node j).data)
    ((s.goto t .exitSched).goto t .exited).selectThread c now

/-- A call as one step. -/
def performWhole (s : Sched) (c now t : ℕ) : SchedCall → Except Halt Sched
  | .wait (some target) => (s.goto t (.waitDead target)).schedWaitThread t target
  | .exit ret => (s.enterExit t ret).threadExit c now t
  | k => s.perform c now t k

/-- The step of an event when calls are one step. -/
def execWhole (s : Sched) : SchedEv → Except Halt Sched
  | .call c now k => (s.activeThread c).elim (.error .nullDeref) fun t => s.performWhole c now t k
  | e => s.exec e

def stepWhole (s : Sched) (e : SchedEv) : Option Sched :=
  if s.Enabled e then (s.execWhole e).toOption else none

/-! ## The start -/

/-- Before any thread. -/
def blank (cpuCount : ℕ) : Sched where
  cpuCount := cpuCount
  thread _ := ⟨0, 0, 0, .dead, .sem, 0, none, none, 0, 0, .correctly⟩
  node _ := ⟨none, 0⟩
  pc _ := .exited
  ret _ := ⟨.noErr, none, none⟩
  table _ := []
  globalTable := []
  activeThread _ := none
  idleThread _ := 0
  initThread := 0
  threadCount := 0
  lastGivenTid := 0
  created := 0
  freed _ := false
  creator _ := none

/-- `sched_init`: CPU 0's idle thread, and init created by it. -/
def schedInit (cpuCount : ℕ) : Sched :=
  { ((blank cpuCount).createIdle 0).createKernelThread 0 kernelHighestPriority 0 6 with
    initThread := 1 }

end Sched

end RTLKIM

import RTLKIM.SchedulerSpec
import RTLKIM.Lib.Run

/-!
# What refers to a thread

A thread is in the global table, in the queue of its parent's children and, past its exit, in the
zombie table; a thread it waits for has its node for `joining_thread`. `RefView` is these and the
counter of thread identifiers, and the steps of the kernel are few on it: most leave it as it is.
-/

namespace RTLKIM

/-- The fields that refer to threads, by thread and by node. -/
structure RefView where
  tid : ℕ → ℕ
  children : ℕ → Option (List ℕ)
  joining : ℕ → Option ℕ
  data : ℕ → Option ℕ
  zombie : List ℕ
  global : List ℕ
  lastTid : ℕ
  created : ℕ
  freed : ℕ → Bool
  init : ℕ

namespace RefView

/-- A thread more, with identifier `tid`, whose parent is `p`. -/
def born (v : RefView) (tid : ℕ) (p : Option ℕ) : RefView :=
  { v with
    tid := Function.update v.tid v.created tid
    children := Function.update
      (p.elim v.children fun t => Function.update v.children t ((v.children t).map (v.created :: ·)))
      v.created (some [])
    joining := Function.update v.joining v.created none
    data := Function.update v.data v.created (some v.created)
    global := v.created :: v.global
    lastTid := add32 v.lastTid 1
    created := v.created + 1 }

/-- `x` reclaimed by `t`, whose children were `l`. -/
def clean (v : RefView) (t x : ℕ) (l : List ℕ) : RefView :=
  { v with
    children := Function.update v.children t (some (l.erase x))
    zombie := v.zombie.eraseP fun n => v.data n = some x
    global := v.global.erase x
    freed := Function.update v.freed x true }

/-- The last child `x` of `t` handed over to init, whose children were `k` without it; `data` is
that of the nodes after. -/
def adopt (v : RefView) (t x : ℕ) (l k : List ℕ) (data : ℕ → Option ℕ) : RefView :=
  { v with
    children := Function.update (Function.update v.children t (some l.dropLast)) v.init
      (some (x :: k))
    data := data }

end RefView

/-- The event creates a thread, or tries to. -/
def SchedEv.creates : SchedEv → Bool
  | .initAp _ | .call _ _ (.create _ _ _) => true
  | _ => false

/-- What happens next, with the pops by which `init_func` takes a child off its queue to wait for
it. -/
inductive InitEv
  | sched (e : SchedEv)
  | pop (cpu : ℕ)
  deriving DecidableEq

namespace Sched

def refs (s : Sched) : RefView where
  tid t := (s.thread t).tid
  children t := (s.thread t).children
  joining t := (s.thread t).joiningThread
  data n := (s.node n).data
  zombie := s.table .zombie
  global := s.globalTable
  lastTid := s.lastGivenTid
  created := s.created
  freed := s.freed
  init := s.initThread

/-! ## Identifiers -/

/-- No two threads in the global table have the same identifier. -/
def TidsUnique (s : Sched) : Prop :=
  ∀ a ∈ s.globalTable, ∀ b ∈ s.globalTable, (s.thread a).tid = (s.thread b).tid → a = b

/-- When a CPU comes up, no thread of the global table has the identifier that was last given. -/
def IdleIsNew (s : Sched) : SchedEv → Prop
  | .initAp _ => ∀ t ∈ s.globalTable, (s.thread t).tid ≠ s.lastGivenTid
  | _ => True

instance (s : Sched) : ∀ e, Decidable (s.IdleIsNew e)
  | .initAp _ => inferInstanceAs (Decidable (∀ t ∈ _, _))
  | .call _ _ _ | .stmt _ _ | .timer _ _ => instDecidableTrue

/-! ## Orphans -/

/-- `thread_exit` up to its `sched_schedule`. -/
def threadExitBody (s : Sched) (t : ℕ) : Except Halt Sched :=
  let s := (s.exitZombie t).exitTestInit t
  if t = s.initThread then .ok s
  else do
    let s := (s.goto t .exitPush).exitPush t
    let s ← exitAllChildren t ((s.thread t).children.elim 0 List.length + 1) s
    let s ← s.exitDelete t
    let s ← (s.exitSearch t).exitWake t
      ((s.thread t).joiningThread.bind fun j => (s.node j).data)
    .ok (s.goto t .exitSched)

/-- Init has the children `l` of `t`, each once more than before, and knows it; the scheduling nodes
of the others hold what they held. -/
structure Reparents (s s' : Sched) (t : ℕ) (l : List ℕ) : Prop where
  left : (s'.thread t).children = none
  moved : ∃ k, (s.thread s.initThread).children = some k
    ∧ (s'.thread s.initThread).children = some (l ++ k)
  ptid : ∀ x ∈ l, (s'.thread x).ptid = (s'.thread s.initThread).tid
  tid : ∀ x, (s'.thread x).tid = (s.thread x).tid
  data : ∀ n, n ≠ t → (s'.node n).data = (s.node n).data

/-- A scheduling node holds its own thread, if any, and init has a queue of children. -/
structure Linked (s : Sched) : Prop where
  own : ∀ n x, (s.node n).data = some x → n = x
  heir : (s.thread s.initThread).children ≠ none

/-! ## Reclaimed threads -/

/-- The `kernel_queue_pop` of `init_func`. -/
def initPop (s : Sched) : Sched :=
  s.setThread s.initThread fun T => { T with children := T.children.map List.dropLast }

/-- The step of an event. Init pops in its own code. -/
def stepInit (s : Sched) : InitEv → Option Sched
  | .sched e => s.step e
  | .pop c =>
    if s.activeThread c = some s.initThread ∧ s.pc s.initThread = .run then some s.initPop else none

/-- Nothing refers to a thread that has been reclaimed: it is in no table and no queue of children,
and its node is the joiner of no other thread. -/
def NoDangling (s : Sched) : Prop :=
  ∀ x, s.freed x = true → (∀ n ∈ s.table .zombie, (s.node n).data ≠ some x) ∧ x ∉ s.globalTable
    ∧ (∀ p, ¬ s.HasChild p x) ∧ ∀ y, s.freed y = false → (s.thread y).joiningThread ≠ some x

end Sched

end RTLKIM

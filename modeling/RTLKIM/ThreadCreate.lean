import RTLKIM.KHeap
import RTLKIM.Scheduler

/-!
# The creation of a thread

`sched_create_kernel_thread` with its six allocations, what it takes back when one fails, and the first
frame of the stack of the thread. The heap is what `kmalloc` and `kfree` make of it: the blocks that are
live and the addresses that the next calls of `kmalloc` return. The two tables of the scheduler that a
node is pushed in are not `NULL`; the `children` of the creator may be.
-/

namespace RTLKIM

/-- `sizeof(kernel_thread_t)`. -/
abbrev sizeofKernelThread : ℕ := 1180

/-- `sizeof(kernel_queue_node_t)`. -/
abbrev sizeofKernelQueueNode : ℕ := 20

/-- `sizeof(kernel_queue_t)`, with its spinlock. -/
abbrev sizeofChildren : ℕ := 24

/-- `sizeof(uintptr_t)`. -/
abbrev sizeofUintptr : ℕ := 4

/-! ## The heap -/

/-- A block, with the bytes asked for. -/
structure Block where
  addr : ℕ
  size : ℕ
  deriving DecidableEq

/-- The live blocks, and what the next calls of `kmalloc` return: `NULL` when nothing is left. -/
structure MallocHeap where
  live : List Block
  answers : List ℕ

namespace MallocHeap

def kmalloc (h : MallocHeap) (size : ℕ) : MallocHeap × ℕ :=
  let p := h.answers.headD 0
  (⟨if p = 0 then h.live else ⟨p, size⟩ :: h.live, h.answers.tail⟩, p)

def kfree (h : MallocHeap) (ptr : ℕ) : MallocHeap :=
  if ptr = 0 then h else { h with live := h.live.eraseP fun b => b.addr = ptr }

/-- `kernel_queue_delete_node`, on a node that is in a queue or in none. -/
def kernelQueueDeleteNode (h : MallocHeap) (node : ℕ) (enlisted : Bool) : MallocHeap :=
  if node = 0 ∨ enlisted = true then h else h.kfree node

/-- `kernel_queue_delete_queue`, on a queue with no node. -/
def kernelQueueDeleteQueue (h : MallocHeap) (queue : ℕ) : MallocHeap :=
  if queue = 0 then h else h.kfree queue

end MallocHeap

/-! ## The stack -/

/-- `stack_index`: the words of a stack of `stack_size` bytes. -/
def stackIndex (stackSize : ℕ) : ℕ := KHeap.alignDown (add32 stackSize (align - 1)) / sizeofUintptr

/-- `cpu_context` and `free_page_table`. -/
structure CpuContext where
  eip : ℕ
  esp : ℕ
  ebp : ℕ
  cr3 : ℕ
  freePageTable : ℕ

/-- `THREAD_INIT_EFLAGS`. -/
abbrev threadInitEflags : ℕ := 0x202

/-- `THREAD_INIT_CS`. -/
abbrev threadInitCs : ℕ := 0x08

/-- `THREAD_INIT_DS`, which is also `THREAD_INIT_ES`, `FS`, `GS` and `SS`. -/
abbrev threadInitDs : ℕ := 0x10

/-- `THREAD_INIT_EAX`, and the other registers. -/
abbrev threadInitReg : ℕ := 0

/-- `cpu_init_thread_context`: the context, and the indices in `stack` written with what is written
there. -/
def cpuInitThreadContext (entryPoint stackIndex freeTablePage pageTableAddress stack : ℕ) :
    CpuContext × List (ℕ × ℕ) :=
  let addr k := add32 stack (mul32 sizeofUintptr (sub32 stackIndex k))
  let esp := addr 17
  let ebp := addr 1
  (⟨entryPoint, esp, ebp, pageTableAddress, freeTablePage⟩,
    [(1, threadInitEflags), (2, threadInitCs), (3, entryPoint), (4, 0), (5, 0), (6, threadInitDs),
      (7, threadInitDs), (8, threadInitDs), (9, threadInitDs), (10, threadInitDs), (11, threadInitReg),
      (12, threadInitReg), (13, threadInitReg), (14, threadInitReg), (15, threadInitReg),
      (16, threadInitReg), (17, ebp), (18, esp)].map fun w => (sub32 stackIndex w.1, w.2))

/-! ## The call -/

/-- The scheduler and the heap; of each thread its context, and its stack as a block. -/
structure ThreadSys where
  sched : Sched
  heap : MallocHeap
  context : ℕ → CpuContext
  stack : ℕ → Block

/-- What a call leaves: `frame` lists the words written in the stack, by their indices. -/
structure CreateRes where
  sys : ThreadSys
  err : SchedErr
  frame : List (ℕ × ℕ)

/-- The arguments that are read; `entryPoint` is the address of `thread_wrapper`. -/
structure CreateArgs where
  priority : ℕ
  stackSize : ℕ
  cpuAffinity : ℕ
  entryPoint : ℕ

namespace ThreadSys

/-- A call that returns an error once `last_given_tid` has been given. -/
def taken (s : ThreadSys) (heap : MallocHeap) (frame : List (ℕ × ℕ)) : CreateRes :=
  ⟨{ s with sched := { s.sched with lastGivenTid := add32 s.sched.lastGivenTid 1 }, heap := heap },
    .malloc, frame⟩

/-- The three pushes and the count, when the queue of the children of `t` is there. -/
def enlist (s : ThreadSys) (t : ℕ) (a : CreateArgs) (heap : MallocHeap) (stack : Block)
    (context : CpuContext) (children : List ℕ) : ThreadSys :=
  let n := s.sched.created
  let T : Thread :=
    { tid := add32 s.sched.lastGivenTid 1, ptid := (s.sched.thread t).tid, priority := a.priority,
      state := .ready, blockType := .sem, wakeupTime := 0, joiningThread := none,
      children := some [], cpuAffinity := a.cpuAffinity, retVal := 0, returnCause := .correctly }
  let sched := s.sched.setThread t fun P => { P with children := some (n :: children) }
  ⟨{ (sched.newThread T).push (.active a.cpuAffinity a.priority) n with
      creator := Function.update sched.creator n (some t) },
    heap, Function.update s.context n context, Function.update s.stack n stack⟩

/-- `sched_create_kernel_thread` by `t`. -/
def schedCreateKernelThread (s : ThreadSys) (t : ℕ) (a : CreateArgs) : CreateRes :=
  if s.sched.cpuCount - 1 < a.cpuAffinity then ⟨s, .unauthorizedAction, []⟩
  else if kernelLowestPriority < a.priority then ⟨s, .forbidenPriority, []⟩
  else
    let (h, newThread) := s.heap.kmalloc sizeofKernelThread
    let (h, newThreadNode) := h.kmalloc sizeofKernelQueueNode
    if newThread = 0 ∨ newThreadNode = 0 then
      -- the node is not deleted
      ⟨{ s with heap := if newThread ≠ 0 then h.kfree newThread else h }, .malloc, []⟩
    else
      let (h, children) := h.kmalloc sizeofChildren
      if children = 0 then
        s.taken ((h.kernelQueueDeleteNode newThreadNode false).kfree newThread) []
      else
        let index := stackIndex a.stackSize
        let (h, stack) := h.kmalloc (mul32 index sizeofUintptr)
        if stack = 0 then
          s.taken (((h.kernelQueueDeleteNode newThreadNode false).kernelQueueDeleteQueue
            children).kfree newThread) []
        else
          let (context, frame) := cpuInitThreadContext a.entryPoint index (s.context t).freePageTable
            (s.context t).cr3 stack
          let (h, secondeNewThreadNode) := h.kmalloc sizeofKernelQueueNode
          if secondeNewThreadNode = 0 then
            s.taken ((((h.kernelQueueDeleteQueue children).kernelQueueDeleteNode newThreadNode
              false).kfree stack).kfree newThread) frame
          else
            let (h, childrenNewThreadNode) := h.kmalloc sizeofKernelQueueNode
            if childrenNewThreadNode = 0 then
              s.taken (((((h.kernelQueueDeleteQueue children).kernelQueueDeleteNode newThreadNode
                false).kernelQueueDeleteNode secondeNewThreadNode false).kfree stack).kfree
                  newThread) frame
            else
              match (s.sched.thread t).children with
              | none =>
                -- its node is in `global_threads_table`, and removed after it was to be deleted
                let r := s.taken ((((((h.kernelQueueDeleteQueue children).kernelQueueDeleteNode
                  childrenNewThreadNode false).kernelQueueDeleteNode newThreadNode
                    false).kernelQueueDeleteNode secondeNewThreadNode true).kfree stack).kfree
                      newThread) frame
                { r with err := .nullPointer }
              | some l =>
                ⟨s.enlist t a h ⟨stack, mul32 index sizeofUintptr⟩ context l, .noErr, frame⟩

/-! ## What is asked of it -/

/-- What a call is to leave as it was when it fails. -/
structure Kept (s s' : ThreadSys) (t : ℕ) : Prop where
  live : s'.heap.live.Perm s.heap.live
  globalTable : s'.sched.globalTable = s.sched.globalTable
  children : (s'.sched.thread t).children = (s.sched.thread t).children
  active : ∀ c p, s'.sched.table (.active c p) = s.sched.table (.active c p)
  threadCount : s'.sched.threadCount = s.sched.threadCount
  lastGivenTid : s'.sched.lastGivenTid = s.sched.lastGivenTid

/-- A call that fails leaves all as it was. -/
def Atomic (s : ThreadSys) (t : ℕ) (a : CreateArgs) : Prop :=
  (s.schedCreateKernelThread t a).err ≠ .noErr → s.Kept (s.schedCreateKernelThread t a).sys t

/-- The arguments are refused. -/
def Refused (s : ThreadSys) (a : CreateArgs) : Prop :=
  s.sched.cpuCount - 1 < a.cpuAffinity ∨ kernelLowestPriority < a.priority

/-- The six allocations succeed, and the creator has a queue of children. -/
def Supplied (s : ThreadSys) (t : ℕ) : Prop :=
  (∀ i < 6, s.heap.answers.getD i 0 ≠ 0) ∧ (s.sched.thread t).children ≠ none

/-- The words written are in the block of the stack of the new thread, which is of `stack_size` bytes
at least. -/
def FrameFits (s : ThreadSys) (t : ℕ) (a : CreateArgs) : Prop :=
  let r := s.schedCreateKernelThread t a
  let b := r.sys.stack s.sched.created
  b ∈ r.sys.heap.live ∧ a.stackSize ≤ b.size
    ∧ ∀ w ∈ r.frame, w.1 * sizeofUintptr + sizeofUintptr ≤ b.size

/-- The call returns an error and creates no thread, or the first frame fits in the stack. -/
def StackFits (s : ThreadSys) (t : ℕ) (a : CreateArgs) : Prop :=
  (s.schedCreateKernelThread t a).err ≠ .noErr
      ∧ (s.schedCreateKernelThread t a).sys.sched.created = s.sched.created
    ∨ s.FrameFits t a

end ThreadSys

end RTLKIM

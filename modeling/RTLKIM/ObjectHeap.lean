import RTLKIM.Channel
import RTLKIM.KHeap
import RTLKIM.Mutex

/-!
# What the objects take from the heap

The allocations behind a semaphore, a mutex, a mailbox and a queue: a `kernel_queue_t` for each
semaphore and mutex, and the container of a queue. The steps on an object are those of the modules
on it; of these, only the destructions free something.
-/

namespace RTLKIM

/-- `sizeof(kernel_queue_t)`, with its spinlock. -/
abbrev sizeofKernelQueue : ℕ := 24

/-- `sizeof(void*)`. -/
abbrev sizeofPtr : ℕ := 4

namespace HeapSys

/-- `kmalloc`, and the address it returns. -/
def kmalloc (s : HeapSys) (size : ℕ) : HeapSys × ℕ :=
  let r := s.heap.kmalloc size
  (⟨r.1, if r.2 = 0 then s.live else r.2 :: s.live⟩, r.2)

/-- `kfree`. -/
def kfree (s : HeapSys) (ptr : ℕ) : HeapSys := ⟨s.heap.kfree ptr, s.live.erase ptr⟩

/-- `memset` to zero. -/
def memset (s : HeapSys) (ptr size : ℕ) : HeapSys :=
  { s with
    heap := { s.heap with mem := fun a => if ptr ≤ a ∧ a < ptr + size then 0 else s.heap.mem a } }

/-- `kernel_queue_create_queue`; with `NULL` comes `OS_ERR_MALLOC`. -/
def kernelQueueCreateQueue (s : HeapSys) : HeapSys × ℕ :=
  let r := s.kmalloc sizeofKernelQueue
  if r.2 = 0 then (r.1, 0) else (r.1.memset r.2 sizeofKernelQueue, r.2)

/-- `kernel_queue_delete_queue` on the queue at `queue`, which holds `nodes`; the pointer to it is
`NULL` after that. -/
def kernelQueueDeleteQueue {ν : Type} (s : HeapSys) (queue : ℕ) (nodes : List ν) : HeapSys × ℕ :=
  if queue = 0 ∨ nodes ≠ [] then (s, queue) else (s.kfree queue, 0)

/-- The queues of the two semaphores of a mailbox or a queue, in the order of their `sem_init`. -/
def semQueues (s : HeapSys) : HeapSys × ℕ × ℕ :=
  let r := s.kernelQueueCreateQueue
  if r.2 = 0 then (r.1, 0, 0)
  else
    let w := r.1.kernelQueueCreateQueue
    (w.1, r.2, w.2)

end HeapSys

/-! ## Creation -/

inductive ObjectKind
  | semaphore
  | mutex
  | mailbox
  | queue
  deriving DecidableEq

/-- An object with its threads and the addresses it holds: `waiting_threads`, for mailboxes and
queues those of the two semaphores, and `container`. -/
inductive KObject (τ α : Type)
  | semaphore (s : SemSys τ) (waitingThreads : ℕ)
  | mutex (m : MutexSys τ) (waitingThreads : ℕ)
  | mailbox (m : Chan τ α α) (semRead semWrite : ℕ)
  | queue (q : Chan τ α (Queue α)) (semRead semWrite container : ℕ)

/-- The codes, besides `OS_NO_ERR`, that the creations return. -/
inductive InitErr
  | malloc
  | forbidenPriority
  deriving DecidableEq

/-- A creation with its arguments; `priority` are those of the threads, `null` and `memory` what the
memory of the values holds. -/
inductive InitCall (τ α : Type)
  | semInit (initLevel : Int32)
  | mutexInit (flags : UInt32) (elevation : UInt16) (priority : τ → UInt32)
  | mailboxInit (null : α)
  | queueInit (size : UInt32) (memory : ℕ → α)

def InitCall.kind {τ α : Type} : InitCall τ α → ObjectKind
  | .semInit _ => .semaphore
  | .mutexInit _ _ _ => .mutex
  | .mailboxInit _ => .mailbox
  | .queueInit _ _ => .queue

/-- What a creation leaves of a mailbox or a queue if there is no queue for its second semaphore:
the first is destroyed. -/
def Chan.halfInit {τ α β : Type} (s : Chan τ α β) : Chan τ α β :=
  { s with
    init := false
    semRead := { s.semRead with init := false }
    semWrite := { s.semWrite with init := false } }

namespace KObject

variable {τ α : Type}

/-- `sem_init`, `mutex_init`, `mailbox_init` and `queue_init`. -/
def init : InitCall τ α → HeapSys → HeapSys × Except InitErr (KObject τ α)
  | .semInit initLevel, h =>
    let q := h.kernelQueueCreateQueue
    (q.1, if q.2 = 0 then .error .malloc else .ok (.semaphore (.start initLevel) q.2))
  | .mutexInit flags elevation priority, h =>
    match Mutex.mutexInit flags elevation with
    | .error _ => (h, .error .forbidenPriority)
    | .ok m =>
      let q := h.kernelQueueCreateQueue
      (q.1, if q.2 = 0 then .error .malloc else .ok (.mutex (.start m priority) q.2))
  | .mailboxInit null, h =>
    let (h, r, w) := h.semQueues
    if r = 0 then (h, .error .malloc)
    -- the code of the second `sem_init` is lost in that of the `sem_destroy`, `OS_NO_ERR`
    else if w = 0 then (h, .ok (.mailbox (Mailbox.mailboxInit null).halfInit r w))
    else (h, .ok (.mailbox (Mailbox.mailboxInit null) r w))
  | .queueInit size memory, h =>
    let (h, r, w) := h.semQueues
    let q := Queue.queueInit size.toNat memory
    if r = 0 then (h, .error .malloc)
    else if w = 0 then
      (h, .ok (.queue { q.halfInit with buf := ⟨memory, 0, 0, 0, 0, false, false⟩ } r w 0))
    else
      let c := h.kmalloc (mul32 sizeofPtr size.toNat)
      (c.1, if c.2 = 0 then .error .malloc else .ok (.queue q r w c.2))

/-- No thread waits in a queue of the object. -/
def Quiet : KObject τ α → Prop
  | .semaphore s _ => s.sem.waiters.queue = []
  | .mutex m _ => m.mutex.waiters.queue = []
  | .mailbox m _ _ => m.semRead.waiters.queue = [] ∧ m.semWrite.waiters.queue = []
  | .queue q _ _ _ => q.semRead.waiters.queue = [] ∧ q.semWrite.waiters.queue = []

instance [DecidableEq τ] : ∀ o : KObject τ α, Decidable o.Quiet
  | .semaphore _ _ | .mutex _ _ => inferInstanceAs (Decidable (_ = _))
  | .mailbox _ _ _ | .queue _ _ _ _ => inferInstanceAs (Decidable (_ ∧ _))

/-- The thread is in its own code. -/
def Idle [DecidableEq τ] (t : τ) : KObject τ α → Prop
  | .semaphore s _ => s.Free t
  | .mutex m _ => m.Free t
  | .mailbox m _ _ => m.pc t = .idle
  | .queue q _ _ _ => q.pc t = .idle

instance [DecidableEq τ] [DecidableEq α] (t : τ) : ∀ o : KObject τ α, Decidable (o.Idle t)
  | .semaphore s _ => inferInstanceAs (Decidable (s.Free t))
  | .mutex m _ => inferInstanceAs (Decidable (m.Free t))
  | .mailbox _ _ _ | .queue _ _ _ _ => inferInstanceAs (Decidable (_ = _))

end KObject

/-! ## Steps -/

/-- The heap and an object. -/
structure ObjectSys (τ α : Type) where
  heap : HeapSys
  object : KObject τ α

/-- A step on the object, or a word written in what is allocated. -/
inductive ObjectEv (τ α : Type)
  | sem (e : SemEv τ)
  | mutex (e : MutexEv τ)
  | chan (e : ChanEv τ α)
  | store (addr val : ℕ)

/-- The destruction by a thread. -/
def ObjectKind.destroy {τ α : Type} (t : τ) : ObjectKind → ObjectEv τ α
  | .semaphore => .sem (.destroy t)
  | .mutex => .mutex (.destroy t)
  | .mailbox | .queue => .chan (.destroy t)

namespace ObjectSys

variable {τ α : Type}

/-- The heap and the object after a creation that returns `OS_NO_ERR`. -/
def create (c : InitCall τ α) (h : HeapSys) : Option (ObjectSys τ α) :=
  (KObject.init c h).2.toOption.map fun o => ⟨(KObject.init c h).1, o⟩

/-- What `mutex_destroy` frees once it has unlocked the threads of `m`, which has become `m'`. -/
def mutexFree (h : HeapSys) (m m' : MutexSys τ) (q : ℕ) : MutexEv τ → HeapSys × ℕ
  | .destroy _ =>
    if m.mutex.init = false then (h, q) else h.kernelQueueDeleteQueue q m'.mutex.waiters.queue
  | _ => (h, q)

/-- What `queue_destroy` frees. -/
def queueFree (h : HeapSys) (q : Chan τ α (Queue α)) (c : ℕ) : ChanEv τ α → HeapSys
  | .destroy _ => if q.init = false then h else h.kfree c
  | _ => h

variable [DecidableEq τ]

/-- A step of the threads, whose identifiers are `tid`. -/
def step (tid : τ → Int32) (k : ObjectSys τ α) : ObjectEv τ α → Option (ObjectSys τ α)
  | .sem e =>
    match k.object with
    | .semaphore s q => (s.step e).map fun s => ⟨k.heap, .semaphore s q⟩
    | _ => none
  | .mutex e =>
    match k.object with
    | .mutex m q => (m.step tid e).map fun m' =>
      let r := mutexFree k.heap m m' q e
      ⟨r.1, .mutex m' r.2⟩
    | _ => none
  | .chan e =>
    match k.object with
    | .mailbox m r w => (Mailbox.step m e).map fun m => ⟨k.heap, .mailbox m r w⟩
    | .queue q r w c => (Queue.step q e).map fun q' => ⟨queueFree k.heap q c e, .queue q' r w c⟩
    | _ => none
  | .store addr val => (k.heap.step (.store addr val)).map fun h => { k with heap := h }

end ObjectSys

end RTLKIM

import Mathlib.Tactic.Simps.Basic
import RTLKIM.Lib.Word
import RTLKIM.Lib.Scan

/-!
# The kernel queues

`kernel_queue.c`: the fields of the nodes and of the queues, by address, and the five operations
that read and write them. `0` is `NULL`, for a node and for a queue. `alive` are the nodes that
`kernel_queue_create_node` made; the walks along `next` are given more steps than there are such
nodes. A queue's lock makes each operation one step.

`QueueSpec` is what the queues are for: each is a list of nodes, and the operations are those of
lists.
-/

namespace RTLKIM

/-- The fields of the nodes and of the queues. -/
structure KernelQueues where
  next : ℕ → ℕ
  prev : ℕ → ℕ
  enlisted : ℕ → ℕ
  priority : ℕ → ℕ
  data : ℕ → ℕ
  head : ℕ → ℕ
  tail : ℕ → ℕ
  size : ℕ → ℕ
  alive : List ℕ

/-- The codes of `OS_RETURN_E` that the operations return. -/
inductive QueueErr
  | noErr
  | nullPointer
  | noSuchId
  deriving DecidableEq

/-- What an operation returns, or that it comes to `kernel_panic`. -/
inductive QueueRes
  | code (e : QueueErr)
  | node (n : ℕ) (e : QueueErr)
  | panic
  deriving DecidableEq

/-- A call of an operation. -/
inductive QueueOp
  | push (node queue : ℕ)
  | pushPrio (node queue priority : ℕ)
  | pop (queue : ℕ)
  | find (queue data : ℕ)
  | remove (queue node : ℕ)
  deriving DecidableEq

namespace KernelQueues

@[simps -fullyApplied] def setNext (S : KernelQueues) (n v : ℕ) : KernelQueues :=
  { S with next := Function.update S.next n v }

@[simps -fullyApplied] def setPrev (S : KernelQueues) (n v : ℕ) : KernelQueues :=
  { S with prev := Function.update S.prev n v }

@[simps -fullyApplied] def setEnlisted (S : KernelQueues) (n v : ℕ) : KernelQueues :=
  { S with enlisted := Function.update S.enlisted n v }

@[simps -fullyApplied] def setPriority (S : KernelQueues) (n v : ℕ) : KernelQueues :=
  { S with priority := Function.update S.priority n v }

@[simps -fullyApplied] def setHead (S : KernelQueues) (q v : ℕ) : KernelQueues :=
  { S with head := Function.update S.head q v }

@[simps -fullyApplied] def setTail (S : KernelQueues) (q v : ℕ) : KernelQueues :=
  { S with tail := Function.update S.tail q v }

@[simps -fullyApplied] def setSize (S : KernelQueues) (q v : ℕ) : KernelQueues :=
  { S with size := Function.update S.size q v }

/-- The loops over a queue: the first node from its head that `hit` holds of, or `NULL`. -/
def seek (S : KernelQueues) (q : ℕ) (hit : ℕ → Prop) [DecidablePred hit] : Option ℕ :=
  (scan S.next hit (S.alive.length + 1) (S.head q) (S.head q)).map Prod.fst

/-- The end of both pushes. -/
def enlist (S : KernelQueues) (node q : ℕ) : KernelQueues × QueueRes :=
  let S := (S.setSize q (add32 (S.size q) 1)).setEnlisted node 1
  if S.next node ≠ 0 ∧ S.prev node ≠ 0 ∧ S.next node = S.prev node then (S, .panic)
  else (S, .code .noErr)

/-- The node as the only one of an empty queue. -/
def only (S : KernelQueues) (node q : ℕ) : KernelQueues :=
  (((S.setHead q node).setTail q node).setNext node 0).setPrev node 0

/-- `kernel_queue_push`. -/
def push (S : KernelQueues) (node q : ℕ) : Option (KernelQueues × QueueRes) :=
  if node = 0 ∨ q = 0 then some (S, .code .nullPointer)
  else if S.head q = 0 then some ((S.only node q).enlist node q)
  else
    let S := (S.setNext node (S.head q)).setPrev node 0
    some (((S.setPrev (S.head q) node).setHead q node).enlist node q)

/-- `kernel_queue_push_prio` past its loop, in a queue that is not empty. -/
def insertAt (S : KernelQueues) (node q cursor : ℕ) : KernelQueues :=
  if cursor ≠ 0 then
    let S := (S.setNext node cursor).setPrev node (S.prev cursor)
    let S := S.setPrev cursor node
    if S.prev node ≠ 0 then S.setNext (S.prev node) node else S.setHead q node
  else
    let S := (S.setPrev node (S.tail q)).setNext node 0
    (S.setNext (S.tail q) node).setTail q node

/-- `kernel_queue_push_prio`. -/
def pushPrio (S : KernelQueues) (node q priority : ℕ) : Option (KernelQueues × QueueRes) :=
  if node = 0 ∨ q = 0 then some (S, .code .nullPointer)
  else
    let S := S.setPriority node priority
    if S.head q = 0 then some ((S.only node q).enlist node q)
    else
      (S.seek q fun n => S.priority n ≤ priority).map fun cursor =>
        (S.insertAt node q cursor).enlist node q

/-- `kernel_queue_pop`. -/
def pop (S : KernelQueues) (q : ℕ) : Option (KernelQueues × QueueRes) :=
  if q = 0 then some (S, .node 0 .nullPointer)
  else if S.head q = 0 then some (S, .node 0 .noErr)
  else
    let node := S.tail q
    let S := if S.prev node ≠ 0 then (S.setNext (S.prev node) 0).setTail q (S.prev node)
      else (S.setHead q 0).setTail q 0
    let S := S.setSize q (sub32 (S.size q) 1)
    some (((S.setNext node 0).setPrev node 0).setEnlisted node 0, .node node .noErr)

/-- `kernel_queue_find`. -/
def find (S : KernelQueues) (q data : ℕ) : Option (KernelQueues × QueueRes) :=
  if q = 0 then some (S, .node 0 .nullPointer)
  else
    (S.seek q fun n => S.data n = data).map fun node =>
      (S, if node = 0 then .node 0 .noSuchId else .node node .noErr)

/-- The links of `kernel_queue_remove`. -/
def unlink (S : KernelQueues) (q cursor : ℕ) : KernelQueues :=
  if S.prev cursor ≠ 0 ∧ S.next cursor ≠ 0 then
    let S := S.setNext (S.prev cursor) (S.next cursor)
    S.setPrev (S.next cursor) (S.prev cursor)
  else if S.prev cursor = 0 ∧ S.next cursor ≠ 0 then
    let S := S.setHead q (S.next cursor)
    S.setPrev (S.next cursor) 0
  else if S.prev cursor ≠ 0 ∧ S.next cursor = 0 then
    let S := S.setTail q (S.prev cursor)
    S.setNext (S.prev cursor) 0
  else (S.setHead q 0).setTail q 0

/-- `kernel_queue_remove`; the queue's size is not decremented. -/
def remove (S : KernelQueues) (q node : ℕ) : Option (KernelQueues × QueueRes) :=
  if q = 0 ∨ node = 0 then some (S, .code .nullPointer)
  else
    (S.seek q fun n => n = node).map fun cursor =>
      if cursor = 0 then (S, .code .noSuchId)
      else
        let S := S.unlink q cursor
        (((S.setNext node 0).setPrev node 0).setEnlisted node 0, .code .noErr)

def exec (S : KernelQueues) : QueueOp → Option (KernelQueues × QueueRes)
  | .push node q => S.push node q
  | .pushPrio node q priority => S.pushPrio node q priority
  | .pop q => S.pop q
  | .find q data => S.find q data
  | .remove q node => S.remove q node

/-- The operations one after another, and what they return. -/
def execAll (S : KernelQueues) : List QueueOp → Option (KernelQueues × List QueueRes)
  | [] => some (S, [])
  | op :: ops =>
    (S.exec op).bind fun (S', r) => (S'.execAll ops).map fun (S'', rs) => (S'', r :: rs)

/-- Every queue is new and no node has been put in one. -/
structure Unused (S : KernelQueues) : Prop where
  head : ∀ q, S.head q = 0
  tail : ∀ q, S.tail q = 0
  enlisted : ∀ n, S.enlisted n = 0

end KernelQueues

/-! ## What the queues are for -/

/-- The nodes of each queue from its head on, and the priorities of the nodes. -/
structure QueueSpec where
  lists : ℕ → List ℕ
  priority : ℕ → ℕ

namespace QueueSpec

def setList (A : QueueSpec) (q : ℕ) (l : List ℕ) : QueueSpec :=
  { A with lists := Function.update A.lists q l }

/-- `node` before the first node whose priority is not greater. -/
def insertPrio (priority : ℕ → ℕ) (node p : ℕ) (l : List ℕ) : List ℕ :=
  l.takeWhile (fun n => p < priority n) ++ node :: l.dropWhile fun n => p < priority n

/-- The operations on lists, for nodes that carry `data`. -/
def step (data : ℕ → ℕ) (A : QueueSpec) : QueueOp → QueueSpec × QueueRes
  | .push node q =>
    if node = 0 ∨ q = 0 then (A, .code .nullPointer)
    else (A.setList q (node :: A.lists q), .code .noErr)
  | .pushPrio node q p =>
    if node = 0 ∨ q = 0 then (A, .code .nullPointer)
    else
      ({ A.setList q (insertPrio A.priority node p (A.lists q)) with
          priority := Function.update A.priority node p }, .code .noErr)
  | .pop q =>
    if q = 0 then (A, .node 0 .nullPointer)
    else (A.setList q (A.lists q).dropLast, .node (lastD (A.lists q)) .noErr)
  | .find q d =>
    if q = 0 then (A, .node 0 .nullPointer)
    else
      match (A.lists q).find? fun n => data n = d with
      | none => (A, .node 0 .noSuchId)
      | some n => (A, .node n .noErr)
  | .remove q node =>
    if q = 0 ∨ node = 0 then (A, .code .nullPointer)
    else if node ∈ A.lists q then (A.setList q ((A.lists q).erase node), .code .noErr)
    else (A, .code .noSuchId)

/-- A node is pushed only while it is in no queue, and was made by `kernel_queue_create_node`. -/
def Legal (alive : List ℕ) (A : QueueSpec) : QueueOp → Prop
  | .push node q | .pushPrio node q _ =>
    node = 0 ∨ q = 0 ∨ node ∈ alive ∧ ∀ q', node ∉ A.lists q'
  | _ => True

def runAll (data : ℕ → ℕ) (A : QueueSpec) : List QueueOp → QueueSpec × List QueueRes
  | [] => (A, [])
  | op :: ops =>
    let r := A.step data op
    ((runAll data r.1 ops).1, r.2 :: (runAll data r.1 ops).2)

def LegalRun (alive : List ℕ) (data : ℕ → ℕ) (A : QueueSpec) : List QueueOp → Prop
  | [] => True
  | op :: ops => A.Legal alive op ∧ LegalRun alive data (A.step data op).1 ops

/-- Whether a call of `kernel_queue_remove` finds its node in queue `q`, as a number. -/
def taken (A : QueueSpec) (q : ℕ) : QueueOp → ℕ
  | .remove q' node => if q' = q ∧ q ≠ 0 ∧ node ∈ A.lists q then 1 else 0
  | _ => 0

/-- How many calls of `kernel_queue_remove` in a run find their node in queue `q`. -/
def removals (data : ℕ → ℕ) (q : ℕ) (A : QueueSpec) : List QueueOp → ℕ
  | [] => 0
  | op :: ops => A.taken q op + removals data q (A.step data op).1 ops

/-- The calls that put node `n` in a queue. -/
def pushes (n : ℕ) : QueueOp → Bool
  | .push node q | .pushPrio node q _ => node = n && q != 0
  | _ => false

/-- The number, from 1, of the last call of a run that put node `n` in a queue. -/
def lastPush (ops : List QueueOp) (n : ℕ) : ℕ := ops.length - ops.reverse.findIdx (pushes n)

end QueueSpec

/-- The queues of `S` are the lists of `A`: `next` goes along each list from the queue's head and
`prev` back, `tail` is the last node, a node is in one queue at most, and it is `enlisted` when it
is in one. -/
structure KernelQueues.Refines (S : KernelQueues) (A : QueueSpec) : Prop where
  dll : ∀ q, Dll S.next S.prev (S.head q) (A.lists q)
  tail : ∀ q, S.tail q = lastD (A.lists q)
  alive : ∀ q, ∀ n ∈ A.lists q, n ∈ S.alive
  one : ∀ q q' n, n ∈ A.lists q → n ∈ A.lists q' → q = q'
  enlisted : ∀ n, S.enlisted n = 1 ∧ (∃ q, n ∈ A.lists q) ∨ S.enlisted n = 0 ∧ ∀ q, n ∉ A.lists q
  priority : S.priority = A.priority

end RTLKIM

import RTLKIM.Lib.Dll
import RTLKIM.Lib.Span
import RTLKIM.Lib.Run

/-!
# The page fault handlers

The list of `memory/paging.c` headed by `handler_list`, and the search of
`paging_fault_general_handler` along it. The nodes are `mem_handler_t`s by address; `alive` are the
addresses that `kmalloc` returned and `kfree` has not been given. A call is told the address its
`kmalloc` returns, `NULL` when it fails. The walks along `next` are given more steps than there are
nodes alive.

The list's lock makes each call one step.
-/

namespace RTLKIM

/-- `PAGE_FAULT_LINE`. -/
def pageFaultLine : ℕ := 14

/-- `mem_handler_t`; `stop` is its `end`. -/
structure MemHandler where
  start : ℕ
  stop : ℕ
  handler : ℕ
  next : ℕ
  deriving DecidableEq

/-- The codes of `OS_RETURN_E` that a registration returns. -/
inductive RegisterErr
  | noErr
  | nullPointer
  | unauthorizedAction
  | malloc
  | handlerAlreadyExists
  deriving DecidableEq

/-- What a page fault comes to. -/
inductive FaultOutcome
  | panic
  | call (handler faultAddress : ℕ)
  deriving DecidableEq

/-- The nodes and `handler_list`. -/
structure Handlers where
  nodes : ℕ → MemHandler
  alive : List ℕ
  handlerList : ℕ

namespace Handlers

def nextOf (H : Handlers) (n : ℕ) : ℕ := (H.nodes n).next

def setNext (H : Handlers) (n v : ℕ) : Handlers :=
  { H with nodes := Function.update H.nodes n { H.nodes n with next := v } }

/-- A node from `kmalloc`, and its fields. -/
def newNode (H : Handlers) (node : ℕ) (m : MemHandler) : Handlers :=
  { H with nodes := Function.update H.nodes node m, alive := node :: H.alive }

def kfree (H : Handlers) (node : ℕ) : Handlers := { H with alive := H.alive.erase node }

/-- The loop of the registration: the first node that starts after `start`, or `NULL`, and the node
before it. -/
def search (H : Handlers) (start : ℕ) : ℕ → ℕ → ℕ → Option (ℕ × ℕ)
  | 0, _, _ => none
  | fuel + 1, cursor, pre =>
    if cursor ≠ 0 ∧ (H.nodes cursor).start ≤ start then
      H.search start fuel (H.nodes cursor).next cursor
    else some (cursor, pre)

/-- The registration past its loop: the new range linked, or freed when it meets a neighbour. -/
def link (H : Handlers) (start stop node cursor pre : ℕ) : Handlers × RegisterErr :=
  if cursor ≠ 0 then
    if cursor = H.handlerList then
      if (H.nodes cursor).start < stop then (H.kfree node, .handlerAlreadyExists)
      else ({ H.setNext node cursor with handlerList := node }, .noErr)
    else if start < (H.nodes pre).stop ∨ (H.nodes cursor).start < stop then
      (H.kfree node, .handlerAlreadyExists)
    else ((H.setNext node (H.nodes pre).next).setNext pre node, .noErr)
  else if start < (H.nodes pre).stop then (H.kfree node, .handlerAlreadyExists)
  else (H.setNext pre node, .noErr)

/-- `paging_register_fault_handler`, with the address its `kmalloc` returns. -/
def pagingRegisterFaultHandler (H : Handlers) (handler start stop node : ℕ) :
    Option (Handlers × RegisterErr) :=
  if handler = 0 then some (H, .nullPointer)
  else if stop ≤ start then some (H, .unauthorizedAction)
  else if node = 0 then some (H, .malloc)
  else
    let H := H.newNode node ⟨start, stop, handler, 0⟩
    if H.handlerList ≠ 0 then
      (H.search start (H.alive.length + 1) H.handlerList H.handlerList).map fun (cursor, pre) =>
        H.link start stop node cursor pre
    else some ({ H with handlerList := node }, .noErr)

/-- The loop of `paging_fault_general_handler`: the first node whose range has the address, or
`NULL`. -/
def find (H : Handlers) (faultAddress : ℕ) : ℕ → ℕ → Option ℕ
  | 0, _ => none
  | fuel + 1, cursor =>
    if cursor = 0 then some 0
    else if (H.nodes cursor).start ≤ faultAddress ∧ faultAddress < (H.nodes cursor).stop then
      some cursor
    else H.find faultAddress fuel (H.nodes cursor).next

/-- `paging_fault_general_handler`, with the address in `cr2`. -/
def pagingFaultGeneralHandler (H : Handlers) (intId faultAddress : ℕ) : Option FaultOutcome :=
  if intId ≠ pageFaultLine then some .panic
  else
    (H.find faultAddress (H.alive.length + 1) H.handlerList).map fun cursor =>
      if cursor = 0 then .panic else .call (H.nodes cursor).handler faultAddress

/-! ## Runs -/

/-- A call of `paging_register_fault_handler`, with the address its `kmalloc` returns. -/
structure Register where
  handler : ℕ
  start : ℕ
  stop : ℕ
  node : ℕ
  deriving DecidableEq

/-- An address that `kmalloc` may return for a node. -/
def FreshNode (H : Handlers) (node : ℕ) : Prop := node ≠ 0 ∧ node ∉ H.alive

instance (H : Handlers) (node : ℕ) : Decidable (H.FreshNode node) :=
  inferInstanceAs (Decidable (_ ∧ _))

/-- A registration whose `kmalloc` succeeds. -/
def step (H : Handlers) (r : Register) : Option Handlers :=
  if H.FreshNode r.node then
    (H.pagingRegisterFaultHandler r.handler r.start r.stop r.node).map Prod.fst
  else none

/-! ## What the list is for -/

/-- The addresses of a registered range. -/
def range (H : Handlers) (n : ℕ) : Set ℕ := Set.Ico (H.nodes n).start (H.nodes n).stop

/-- The list goes through the nodes `l`, alive, and no range is empty. -/
structure Listed (H : Handlers) (l : List ℕ) : Prop where
  sll : Sll H.nextOf H.handlerList l
  alive : ∀ n ∈ l, n ∈ H.alive
  nonempty : ∀ n ∈ l, (H.nodes n).start < (H.nodes n).stop

/-- Nothing of the list has changed from `H` to `H'`, and nothing of what is allocated. -/
structure Same (H H' : Handlers) : Prop where
  list : H'.handlerList = H.handlerList
  alive : H'.alive = H.alive
  nodes : ∀ n ∈ H.alive, H'.nodes n = H.nodes n

/-- The range `r` is in the list `l'` of `H'` beside the ranges of `l`, which are as they were. -/
structure Added (H : Handlers) (l : List ℕ) (r : Register) (H' : Handlers) (l' : List ℕ) :
    Prop where
  listed : H'.Listed l'
  perm : l'.Perm (r.node :: l)
  alive : H'.alive = r.node :: H.alive
  range : (H'.nodes r.node).start = r.start ∧ (H'.nodes r.node).stop = r.stop
    ∧ (H'.nodes r.node).handler = r.handler
  kept : ∀ n ∈ l, (H'.nodes n).start = (H.nodes n).start ∧ (H'.nodes n).stop = (H.nodes n).stop
    ∧ (H'.nodes n).handler = (H.nodes n).handler

end Handlers

end RTLKIM

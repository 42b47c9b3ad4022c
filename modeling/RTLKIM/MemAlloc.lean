import RTLKIM.Lib.Word
import RTLKIM.Lib.Dll
import RTLKIM.Lib.Area
import RTLKIM.Lib.Run

/-!
# The pool of free frames

`memalloc.c` on the list headed by `kernel_free_frames`. The nodes are `mem_area_t`s by address;
`alive` are those that `kmalloc` returned and `kfree` has not been given. Every `kmalloc` succeeds,
and returns the address the caller of a step names: any but `NULL` and the nodes alive. The walks
along `next` are given more steps than there are nodes alive.

The pool's lock makes each call one step.
-/

namespace RTLKIM

/-- `KERNEL_PAGE_SIZE`. -/
abbrev kernelPageSize : ℕ := 4096

/-- `mem_area_t`. -/
structure MemArea where
  start : ℕ
  size : ℕ
  next : ℕ
  prev : ℕ
  deriving DecidableEq

/-- The codes of `OS_RETURN_E` that the pool returns. -/
inductive PoolErr
  | noErr
  | unauthorizedAction
  | noMoreFreeMem
  deriving DecidableEq

/-- The nodes and `kernel_free_frames`. -/
structure Pool where
  nodes : ℕ → MemArea
  alive : List ℕ
  list : ℕ

namespace Pool

def setNode (P : Pool) (n : ℕ) (a : MemArea) : Pool :=
  { P with nodes := Function.update P.nodes n a }

def setStart (P : Pool) (n v : ℕ) : Pool := P.setNode n { P.nodes n with start := v }

def setSize (P : Pool) (n v : ℕ) : Pool := P.setNode n { P.nodes n with size := v }

def setNext (P : Pool) (n v : ℕ) : Pool := P.setNode n { P.nodes n with next := v }

def setPrev (P : Pool) (n v : ℕ) : Pool := P.setNode n { P.nodes n with prev := v }

/-- A node from `kmalloc`, and its fields. -/
def newNode (P : Pool) (node : ℕ) (a : MemArea) : Pool :=
  { P.setNode node a with alive := node :: P.alive }

def kfree (P : Pool) (node : ℕ) : Pool := { P with alive := P.alive.erase node }

/-- The loop of `add_free`: the first node that starts after `start`, and the node before it. -/
def search (P : Pool) (start : ℕ) : ℕ → ℕ → ℕ → Option (ℕ × ℕ)
  | 0, _, _ => none
  | fuel + 1, cursor, save =>
    if cursor = 0 then some (cursor, save)
    else if start < (P.nodes cursor).start then some (cursor, save)
    else P.search start fuel (P.nodes cursor).next cursor

/-- `add_free` past its checks: the area linked, or joined to its neighbours. -/
def link (P : Pool) (start size node cursor save : ℕ) : Pool :=
  let saveEnd := add32 (P.nodes save).start (P.nodes save).size
  if cursor = 0 then
    if saveEnd ≠ start then (P.newNode node ⟨start, size, 0, save⟩).setNext save node
    else P.setSize save (add32 (P.nodes save).size size)
  else if cursor = save then
    if add32 start size = (P.nodes cursor).start then
      (P.setSize cursor (add32 (P.nodes cursor).size size)).setStart cursor start
    else
      { (P.newNode node ⟨start, size, cursor, 0⟩).setPrev cursor node with list := node }
  else if saveEnd = start then
    if add32 start size = (P.nodes cursor).start then
      ((P.setSize save (add32 (P.nodes save).size (add32 size (P.nodes cursor).size))).setNext save
        (P.nodes cursor).next).kfree cursor
    else P.setSize save (add32 (P.nodes save).size size)
  else if add32 start size = (P.nodes cursor).start then
    (P.setSize cursor (add32 (P.nodes cursor).size size)).setStart cursor start
  else
    ((P.newNode node ⟨start, size, cursor, save⟩).setNext save node).setPrev cursor node

/-- `add_free`, with the address its `kmalloc` returns. -/
def addFree (P : Pool) (start size node : ℕ) : Option (Pool × PoolErr) :=
  if P.list = 0 then some ({ P.newNode node ⟨start, size, 0, 0⟩ with list := node }, .noErr)
  else
    (P.search start (P.alive.length + 1) P.list P.list).map fun (cursor, save) =>
      if save ≠ cursor ∧ start < add32 (P.nodes save).start (P.nodes save).size then
        (P, .unauthorizedAction)
      else if save ≠ cursor ∧ cursor ≠ 0 ∧ (P.nodes cursor).start < add32 start size then
        (P, .unauthorizedAction)
      else (P.link start size node cursor save, .noErr)

/-- `remove_free`. -/
def removeFree (P : Pool) (node : ℕ) : Pool :=
  let next := (P.nodes node).next
  let prev := (P.nodes node).prev
  if next = 0 then
    if prev = 0 then { P.kfree node with list := 0 }
    else (P.setNext prev 0).kfree node
  else if prev = 0 then ({ P.setPrev next 0 with list := next } : Pool).kfree node
  else ((P.setPrev next prev).setNext prev next).kfree node

/-- The loop of `get_block`: the first node of at least `need` bytes, or `NULL`. -/
def find (P : Pool) (need : ℕ) : ℕ → ℕ → Option ℕ
  | 0, _ => none
  | fuel + 1, cursor =>
    if cursor = 0 then some 0
    else if need ≤ (P.nodes cursor).size then some cursor
    else P.find need fuel (P.nodes cursor).next

/-- `get_block` from the node selected. -/
def takeBlock (P : Pool) (selected need : ℕ) : Pool :=
  let P := P.setSize selected (sub32 (P.nodes selected).size need)
  let P := P.setStart selected (add32 (P.nodes selected).start need)
  if (P.nodes selected).size = 0 then P.removeFree selected else P

/-- `get_block`: the pool, the address returned and the error code. -/
def getBlock (P : Pool) (blockCount : ℕ) : Option (Pool × ℕ × PoolErr) :=
  let need := mul32 kernelPageSize blockCount
  (P.find need (P.alive.length + 1) P.list).map fun selected =>
    if selected = 0 then (P, 0, .noMoreFreeMem)
    else (P.takeBlock selected need, (P.nodes selected).start, .noErr)

/-- The nodes met from `p` along `next`. -/
def walk (P : Pool) : ℕ → ℕ → List ℕ
  | 0, _ => []
  | fuel + 1, p => if p = 0 then [] else p :: P.walk fuel (P.nodes p).next

/-- The nodes of the list. -/
def areaList (P : Pool) : List ℕ := P.walk P.alive.length P.list

def area (P : Pool) (n : ℕ) : Area := ⟨(P.nodes n).start, (P.nodes n).size⟩

/-- The list goes through the nodes `l`, linked both ways. Its areas are sorted and disjoint, with
none empty and a gap between any two, and none runs past the end of the address space. -/
structure WellFormed (P : Pool) (l : List ℕ) : Prop where
  dll : Dll (fun n => (P.nodes n).next) (fun n => (P.nodes n).prev) P.list l
  alive : ∀ n ∈ l, n ∈ P.alive
  sorted : (l.map P.area).Pairwise fun a b => a.start < b.start
  disjoint : (l.map P.area).Pairwise fun a b => Disjoint a.bytes b.bytes
  gaps : (l.map P.area).Pairwise fun a b => a.stop ≠ b.start ∧ b.stop ≠ a.start
  pos : ∀ a ∈ l.map P.area, 0 < a.size
  words : ∀ a ∈ l.map P.area, a.size < 2 ^ 32 ∧ a.stop ≤ 2 ^ 32

end Pool

/-! ## Runs -/

/-- The pool and the blocks of frames allocated and not freed, by address and count. -/
structure PoolSys where
  pool : Pool
  live : List (ℕ × ℕ)

/-- A call, with the address its `kmalloc` returns if it makes one. -/
inductive PoolEv
  | addFree (start size node : ℕ)
  | allocKframes (count : ℕ)
  | freeKframes (addr count node : ℕ)
  deriving DecidableEq

namespace PoolSys

/-- No node and no frame. -/
def empty : PoolSys := ⟨⟨fun _ => ⟨0, 0, 0, 0⟩, [], 0⟩, []⟩

/-- An address that `kmalloc` may return for a node. -/
def FreshNode (s : PoolSys) (node : ℕ) : Prop := node ≠ 0 ∧ node ∉ s.pool.alive

instance (s : PoolSys) (node : ℕ) : Decidable (s.FreshNode node) :=
  inferInstanceAs (Decidable (_ ∧ _))

/-- The calls there can be: 32 bit arguments, one frame at least and a size below `2 ^ 32`, and live
blocks freed. -/
def Callable (s : PoolSys) : PoolEv → Prop
  | .addFree start size node => start < 2 ^ 32 ∧ size < 2 ^ 32 ∧ s.FreshNode node
  | .allocKframes count => 1 ≤ count ∧ count * kernelPageSize < 2 ^ 32
  | .freeKframes addr count node => (addr, count) ∈ s.live ∧ s.FreshNode node

instance (s : PoolSys) : ∀ e, Decidable (s.Callable e)
  | .addFree _ _ _ | .allocKframes _ | .freeKframes _ _ _ => inferInstanceAs (Decidable (_ ∧ _))

/-- `add_free`, `memalloc_alloc_kframes` or `memalloc_free_kframes`. -/
def call (s : PoolSys) : PoolEv → Option PoolSys
  | .addFree start size node =>
    (s.pool.addFree start size node).map fun r => { s with pool := r.1 }
  | .allocKframes count =>
    (s.pool.getBlock count).map fun r =>
      ⟨r.1, if r.2.2 = .noErr then (r.2.1, count) :: s.live else s.live⟩
  | .freeKframes addr count node =>
    (s.pool.addFree addr (mul32 count kernelPageSize) node).map fun r =>
      ⟨r.1, s.live.erase (addr, count)⟩

def step (s : PoolSys) (e : PoolEv) : Option PoolSys := if s.Callable e then s.call e else none

/-- The frames of a block. -/
def frames (b : ℕ × ℕ) : Area := ⟨b.1, b.2 * kernelPageSize⟩

/-- The block fills the gap between two areas, and the second is not the last. -/
def FillsGap (s : PoolSys) (start size : ℕ) : Prop :=
  ∃ n ∈ s.pool.areaList, (s.pool.nodes n).next ≠ 0
    ∧ (s.pool.nodes (s.pool.nodes n).next).next ≠ 0 ∧ (s.pool.area n).stop = start
    ∧ start + size = (s.pool.nodes (s.pool.nodes n).next).start

/-- The block does not run from before the first area into it. -/
def ClearOfFirst (s : PoolSys) (start size : ℕ) : Prop :=
  s.pool.list = 0 ∨ (s.pool.nodes s.pool.list).start ≤ start
    ∨ start + size ≤ (s.pool.nodes s.pool.list).start

/-- No area ends with the address space. -/
def EndsBelow (s : PoolSys) : Prop := ∀ n ∈ s.pool.areaList, (s.pool.area n).stop < 2 ^ 32

/-- The block is clear of the areas, and some address is in none of them. -/
def Unlisted (s : PoolSys) (start size : ℕ) : Prop :=
  0 < size ∧ start + size ≤ 2 ^ 32 ∧ Clear ⟨start, size⟩ (s.pool.areaList.map s.pool.area)
    ∧ size + ((s.pool.areaList.map s.pool.area).map Area.size).sum < 2 ^ 32

instance (s : PoolSys) (start size : ℕ) : Decidable (s.FillsGap start size) :=
  inferInstanceAs (Decidable (∃ n ∈ s.pool.areaList, _))

instance (s : PoolSys) (start size : ℕ) : Decidable (s.ClearOfFirst start size) :=
  inferInstanceAs (Decidable (_ ∨ _))

instance (s : PoolSys) : Decidable s.EndsBelow := inferInstanceAs (Decidable (∀ n ∈ _, _))

instance (s : PoolSys) (start size : ℕ) : Decidable (s.Unlisted start size) :=
  inferInstanceAs (Decidable (_ ∧ _))

/-- The calls that build a pool: areas that do not fill a gap before an area that is not the last.
Where no end is that of the address space they do not run into the first area, and else they are clear
of all. -/
def Builds (s : PoolSys) : PoolEv → Prop
  | .addFree start size _ =>
    (start + size < 2 ^ 32 ∧ s.EndsBelow ∧ s.ClearOfFirst start size ∨ s.Unlisted start size)
      ∧ ¬ s.FillsGap start size
  | _ => False

/-- The calls that use it: frames allocated, and frames freed that do not fill a gap before an area
that is not the last. -/
def Uses (s : PoolSys) : PoolEv → Prop
  | .addFree _ _ _ => False
  | .allocKframes _ => True
  | .freeKframes addr count _ => ¬ s.FillsGap addr (count * kernelPageSize)

instance (s : PoolSys) : ∀ e, Decidable (s.Builds e)
  | .addFree _ _ _ => inferInstanceAs (Decidable (_ ∧ _))
  | .allocKframes _ | .freeKframes _ _ _ => instDecidableFalse

instance (s : PoolSys) : ∀ e, Decidable (s.Uses e)
  | .addFree _ _ _ => instDecidableFalse
  | .allocKframes _ => instDecidableTrue
  | .freeKframes _ _ _ => inferInstanceAs (Decidable (¬ _))

/-- The nodes `l` of the list, when the free bytes were `free` and the blocks of `live` have been
taken from them. -/
structure Shape (free : Set ℕ) (s : PoolSys) (l : List ℕ) : Prop where
  dll : Dll (fun n => (s.pool.nodes n).next) (fun n => (s.pool.nodes n).prev) s.pool.list l
  alive : ∀ n ∈ l, n ∈ s.pool.alive
  sorted : (l.map s.pool.area).Pairwise fun a b => a.start < b.start
  disjoint : (l.map s.pool.area).Pairwise fun a b => Disjoint a.bytes b.bytes
  gaps : (l.map s.pool.area).Pairwise fun a b => a.stop ≠ b.start ∧ b.stop ≠ a.start
  covers : covered (l.map s.pool.area) = free \ covered (s.live.map frames)
  live : (s.live.map frames).Pairwise fun a b => Disjoint a.bytes b.bytes

end PoolSys

end RTLKIM

import RTLKIM.Lib.Word
import Mathlib.Logic.Function.Basic

/-!
# The kernel heap

`kheap.c`, on a flat memory of 32-bit words. A `mem_chunk_t` at `c` keeps `all.next` at `c`,
`all.prev` at `c + 4`, `used` at `c + 8`, and, in the union that starts the payload, `free.next`
(which is also `data`) at `c + 12` and `free.prev` at `c + 16`. The address of a `list_t` is the
address of its `next`, so `&chunk->all` is `c` and `&chunk->free` is `c + headerSize`. `NULL` is
`0`.

The heap's lock makes each call one step, and the calls are modelled as such.
-/

namespace RTLKIM

/-- The memory, by the byte address of its words. -/
abbrev Mem := ℕ → ℕ

/-- `NUM_SIZES`. -/
abbrev numSizes : ℕ := 32
/-- `ALIGN`. -/
abbrev align : ℕ := 4
/-- `MIN_SIZE`, the size of a `list_t`. -/
abbrev minSize : ℕ := 8
/-- `HEADER_SIZE`, the offset of the payload in a `mem_chunk_t`. -/
abbrev headerSize : ℕ := 12
/-- `sizeof(mem_chunk_t)`. -/
abbrev sizeofMemChunk : ℕ := 20

/-- The memory with the word at `a` set to `v`. -/
def Mem.set (m : Mem) (a v : ℕ) : Mem := Function.update m a v

/-! ## Lists -/

/-- `list_init`. -/
def listInit (m : Mem) (node : ℕ) : Mem :=
  let m := m.set node node
  m.set (node + 4) node

/-- `insert_before`. -/
def insertBefore (m : Mem) (current new : ℕ) : Mem :=
  let currentPrev := m (current + 4)
  let newPrev := m (new + 4)
  let m := m.set currentPrev new
  let m := m.set (new + 4) currentPrev
  let m := m.set newPrev current
  m.set (current + 4) newPrev

/-- `insert_after`. -/
def insertAfter (m : Mem) (current new : ℕ) : Mem :=
  let currentNext := m current
  let newPrev := m (new + 4)
  let m := m.set current new
  let m := m.set (new + 4) current
  let m := m.set newPrev currentNext
  m.set (currentNext + 4) newPrev

/-- `remove`. -/
def remove (m : Mem) (node : ℕ) : Mem :=
  let m := m.set (m (node + 4)) (m node)
  let m := m.set (m node + 4) (m (node + 4))
  let m := m.set node node
  m.set (node + 4) node

/-- `push`: the memory and the new head. -/
def push (m : Mem) (list node : ℕ) : Mem × ℕ :=
  (if list ≠ 0 then insertBefore m list node else m, node)

/-- `pop`: the memory, the new head and the node taken. -/
def pop (m : Mem) (list : ℕ) : Mem × ℕ × ℕ :=
  let top := list
  let nextTop := m top
  (remove m top, if top = nextTop then 0 else nextTop, top)

/-- `remove_from`: the memory and the new head. -/
def removeFrom (m : Mem) (list node : ℕ) : Mem × ℕ :=
  if list = node then ((pop m list).1, (pop m list).2.1) else (remove m node, list)

/-! ## Chunks -/

/-- `kheap.c`'s globals and the memory they point into. -/
structure KHeap where
  mem : Mem
  init : ℕ
  freeChunk : ℕ → ℕ
  firstChunk : ℕ
  lastChunk : ℕ
  memFree : ℕ
  kheapMemUsed : ℕ
  memMeta : ℕ

/-- `memory_chunk_init`. -/
def memoryChunkInit (m : Mem) (chunk : ℕ) : Mem :=
  let m := listInit m chunk
  let m := m.set (chunk + 8) 0
  listInit m (chunk + headerSize)

/-- `memory_chunk_size`. -/
def memoryChunkSize (m : Mem) (chunk : ℕ) : ℕ := sub32 (sub32 (m chunk) chunk) headerSize

/-- The loop of `memory_chunk_slot`; a 32-bit size is halved at most 32 times. -/
def memoryChunkSlotLoop : ℕ → ℤ → ℕ → ℤ
  | 0, n, _ => n
  | fuel + 1, n, size => if 0 < size then memoryChunkSlotLoop fuel (n + 1) (size / 2) else n

/-- `memory_chunk_slot`. -/
def memoryChunkSlot (size : ℕ) : ℤ := memoryChunkSlotLoop 32 (-1) size

namespace KHeap

/-- The head of `free_chunk[n]` as `LIST_REMOVE_FROM` and `LIST_POP` leave it. -/
def container (head : ℕ) : ℕ := if head = 0 then 0 else head - headerSize

/-- `LIST_REMOVE_FROM(&free_chunk[n], chunk, free)`. -/
def listRemoveFrom (h : KHeap) (n chunk : ℕ) : KHeap :=
  let r := removeFrom h.mem (h.freeChunk n + headerSize) (chunk + headerSize)
  { h with mem := r.1, freeChunk := Function.update h.freeChunk n (container r.2) }

/-- `LIST_PUSH(&free_chunk[n], chunk, free)`. -/
def listPush (h : KHeap) (n chunk : ℕ) : KHeap :=
  let head := if h.freeChunk n = 0 then 0 else h.freeChunk n + headerSize
  let r := push h.mem head (chunk + headerSize)
  { h with mem := r.1, freeChunk := Function.update h.freeChunk n (r.2 - headerSize) }

/-- `LIST_POP(&free_chunk[n], free)`: the heap and the chunk taken. -/
def listPop (h : KHeap) (n : ℕ) : KHeap × ℕ :=
  let r := pop h.mem (h.freeChunk n + headerSize)
  ({ h with mem := r.1, freeChunk := Function.update h.freeChunk n (container r.2.1) },
    r.2.2 - headerSize)

/-- `remove_free`. -/
def removeFree (h : KHeap) (chunk : ℕ) : KHeap :=
  let len := memoryChunkSize h.mem chunk
  let n := (memoryChunkSlot len).toNat
  let h := h.listRemoveFrom n chunk
  { h with memFree := sub32 h.memFree (sub32 len headerSize) }

/-- `push_free`. -/
def pushFree (h : KHeap) (chunk : ℕ) : KHeap :=
  let len := memoryChunkSize h.mem chunk
  let n := (memoryChunkSlot len).toNat
  let h := h.listPush n chunk
  { h with memFree := add32 h.memFree (sub32 len headerSize) }

/-- The heap at power-up: the static data is zero, the memory holds anything. -/
def boot (m : Mem) : KHeap := ⟨m, 0, fun _ => 0, 0, 0, 0, 0, 0⟩

/-- `x & ~(ALIGN - 1)`. -/
def alignDown (x : ℕ) : ℕ := x / align * align

/-- The aligned start of the heap, `mem_start` of `kheap_init`. -/
def memStart (start : ℕ) : ℕ := alignDown (add32 start (align - 1))

/-- The aligned end of the heap, `mem_end` of `kheap_init`. -/
def memEnd (start stop : ℕ) : ℕ := alignDown (add32 start (sub32 stop start))

/-- `kheap_init` on the region from `_kernel_heap_start` to `_kernel_heap_end`. -/
def kheapInit (start stop : ℕ) (h : KHeap) : KHeap :=
  let h := { h with memFree := 0, kheapMemUsed := 0, memMeta := 0 }
  let first := memStart start
  let second := first + sizeofMemChunk
  let last := memEnd start stop - sizeofMemChunk
  let m := memoryChunkInit h.mem first
  let m := memoryChunkInit m second
  let m := memoryChunkInit m last
  let m := insertAfter m first second
  let m := insertAfter m second last
  let m := m.set (first + 8) 1
  let m := m.set (last + 8) 1
  let len := memoryChunkSize m second
  let n := (memoryChunkSlot len).toNat
  let h := { h with mem := m, firstChunk := first, lastChunk := last }
  let h := h.listPush n second
  { h with
    memFree := sub32 len headerSize
    memMeta := sizeofMemChunk * 2 + headerSize
    init := 1 }

/-- The size `kmalloc` works with: rounded up to the alignment, at least `MIN_SIZE`. -/
def roundSize (size : ℕ) : ℕ :=
  let size := alignDown (add32 size (align - 1))
  if size < minSize then minSize else size

/-- The slot `kmalloc` starts its search at. -/
def startSlot (size : ℕ) : ℕ := (memoryChunkSlot (sub32 size 1) + 1).toNat

/-- The loop of `kmalloc` over `free_chunk` from `n`, with `k` slots left below `NUM_SIZES`. -/
def searchSlot (freeChunk : ℕ → ℕ) : ℕ → ℕ → Option ℕ
  | 0, _ => none
  | k + 1, n => if freeChunk n = 0 then searchSlot freeChunk k (n + 1) else some n

/-- The slot `kmalloc` takes a chunk of `size` bytes from. -/
def findSlot (freeChunk : ℕ → ℕ) (size : ℕ) : Option ℕ :=
  let n := startSlot size
  if numSizes ≤ n then none else searchSlot freeChunk (numSizes - n) n

/-- The split of `kmalloc`: the rest of `chunk` past `size` bytes becomes a free chunk. The heap
and the size of the rest. -/
def splitChunk (h : KHeap) (chunk size : ℕ) : KHeap × ℕ :=
  let chunk2 := add32 (add32 chunk headerSize) size
  let m := memoryChunkInit h.mem chunk2
  let m := insertAfter m chunk chunk2
  let len := memoryChunkSize m chunk2
  let n := (memoryChunkSlot len).toNat
  let h := { h with mem := m }
  let h := h.listPush n chunk2
  ({ h with
      memMeta := add32 h.memMeta headerSize
      memFree := add32 h.memFree (sub32 len headerSize) }, len)

/-- `kmalloc` once a slot is found: the heap and the address returned. -/
def takeChunk (h : KHeap) (n size : ℕ) : KHeap × ℕ :=
  let (h, chunk) := h.listPop n
  let size2 := memoryChunkSize h.mem chunk
  let (h, len) := if add32 size sizeofMemChunk ≤ size2 then h.splitChunk chunk size else (h, 0)
  let h := { h with
    mem := h.mem.set (chunk + 8) 1
    memFree := sub32 h.memFree size2
    kheapMemUsed := add32 h.kheapMemUsed (sub32 (sub32 size2 len) headerSize) }
  -- `chunk->data`, read through the union
  (h, h.mem (chunk + headerSize))

/-- `kmalloc`: the heap and the address returned. -/
def kmalloc (h : KHeap) (size : ℕ) : KHeap × ℕ :=
  if h.init = 0 then (h, 0)
  else match findSlot h.freeChunk (roundSize size) with
    | none => (h, 0)
    | some n => h.takeChunk n (roundSize size)

/-- `kfree` joining the free chunk after `chunk` to it. -/
def mergeNext (h : KHeap) (chunk : ℕ) : KHeap :=
  let next := h.mem chunk
  if h.mem (next + 8) = 0 then
    let h := h.removeFree next
    { h with
      mem := remove h.mem next
      memMeta := sub32 h.memMeta headerSize
      memFree := add32 h.memFree headerSize }
  else h

/-- `kfree` joining `chunk` to the free chunk `prev` before it, or making it a free chunk. -/
def mergePrev (h : KHeap) (chunk prev : ℕ) : KHeap :=
  if h.mem (prev + 8) = 0 then
    let h := h.removeFree prev
    let h := { h with mem := remove h.mem chunk }
    let h := h.pushFree prev
    { h with memMeta := sub32 h.memMeta headerSize, memFree := add32 h.memFree headerSize }
  else
    let m := h.mem.set (chunk + 8) 0
    let h := { h with mem := listInit m (chunk + headerSize) }
    h.pushFree chunk

/-- `kfree`. -/
def kfree (h : KHeap) (ptr : ℕ) : KHeap :=
  if h.init = 0 ∨ ptr = 0 then h
  else
    let chunk := ptr - headerSize
    let prev := h.mem (chunk + 4)
    let used := memoryChunkSize h.mem chunk
    let h := { h with kheapMemUsed := sub32 h.kheapMemUsed used }
    (h.mergeNext chunk).mergePrev chunk prev

end KHeap

/-! ## Runs -/

/-- What the kernel does with its heap: allocate, free, and write into what it was given. -/
inductive HeapOp
  | kmalloc (size : ℕ)
  | kfree (ptr : ℕ)
  | store (addr val : ℕ)
  deriving DecidableEq

/-- The heap and the addresses `kmalloc` returned that have not been freed. -/
structure HeapSys where
  heap : KHeap
  live : List ℕ

namespace HeapSys

/-- A `kmalloc` of a `size_t`, a `kfree` of a live address, or a word written into the payload of
a live address. -/
def step (s : HeapSys) : HeapOp → Option HeapSys
  | .kmalloc size =>
    if size < 2 ^ 32 then
      let r := s.heap.kmalloc size
      some ⟨r.1, if r.2 = 0 then s.live else r.2 :: s.live⟩
    else none
  | .kfree ptr => if ptr ∈ s.live then some ⟨s.heap.kfree ptr, s.live.erase ptr⟩ else none
  | .store addr val =>
    if addr % 4 = 0 ∧ ∃ ptr ∈ s.live, ptr ≤ addr
        ∧ addr < ptr + memoryChunkSize s.heap.mem (ptr - headerSize) then
      some { s with heap := { s.heap with mem := s.heap.mem.set addr val } }
    else none

/-- The run of a list of operations. -/
def run (s : HeapSys) : List HeapOp → Option HeapSys
  | [] => some s
  | op :: ops => (s.step op).bind fun s' => s'.run ops

/-- The heap `kheap_init` leaves, with nothing allocated. -/
def fresh (start stop : ℕ) (m : Mem) : HeapSys := ⟨(KHeap.boot m).kheapInit start stop, []⟩

/-- The address a `kmalloc` returns. -/
def answer (s : HeapSys) : HeapOp → Option ℕ
  | .kmalloc size => some (s.heap.kmalloc size).2
  | _ => none

/-- The addresses the `kmalloc` calls of a run return. -/
def returned (s : HeapSys) : List HeapOp → List ℕ
  | [] => []
  | op :: ops => (s.answer op).toList ++ (s.step op).elim [] fun s' => s'.returned ops

end HeapSys

end RTLKIM

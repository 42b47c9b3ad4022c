import RTLKIM.KHeap
import RTLKIM.Lib.Ring
import Mathlib.Data.Nat.Log
import Mathlib.Order.BourbakiWitt
import Mathlib.Order.CompletePartialOrder

/-!
# What is asked of the kernel heap

Statements about a heap as its memory has it: the chunks are those a walk from `first_chunk` along
`next` meets, a chunk is used if its `used` word is not zero, and its size is what
`memory_chunk_size` computes from the links.
-/

namespace RTLKIM

/-- The chunks met from `c` along `next`, up to `last`. -/
def walkChunks (m : Mem) (last : ℕ) : ℕ → ℕ → List ℕ
  | 0, _ => []
  | fuel + 1, c => if c = last then [c] else c :: walkChunks m last fuel (m c)

namespace KHeap

/-- The chunks from `first_chunk` to `last_chunk`; no more than one starts at an address. -/
def chunkList (h : KHeap) : List ℕ :=
  walkChunks h.mem h.lastChunk (h.lastChunk - h.firstChunk + 1) h.firstChunk

def isUsed (h : KHeap) (c : ℕ) : Bool := h.mem (c + 8) != 0

/-- The bytes a chunk covers: its header and its payload; `last_chunk` is a bare `mem_chunk_t`. -/
def extent (h : KHeap) (c : ℕ) : ℕ :=
  if c = h.lastChunk then sizeofMemChunk else headerSize + memoryChunkSize h.mem c

/-- The room `kheap_init` needs: three chunks between the aligned ends of the region. -/
def HeapRoom (start stop : ℕ) : Prop := memStart start + 3 * sizeofMemChunk ≤ memEnd start stop

instance (start stop : ℕ) : Decidable (HeapRoom start stop) := inferInstanceAs (Decidable (_ ≤ _))

/-- The chunks of the heap from `lo` to `hi`, and the free ones by slot. -/
structure Shape (h : KHeap) (lo hi : ℕ) (free : ℕ → List ℕ) : Prop where
  first : h.firstChunk = lo ∧ h.chunkList.head? = some h.firstChunk
  last : h.lastChunk + sizeofMemChunk = hi ∧ h.chunkList.getLast? = some h.lastChunk
  ring : Ring 4 h.mem h.chunkList
  sorted : h.chunkList.Pairwise (· < ·)
  room : ∀ c ∈ h.chunkList, sizeofMemChunk ≤ h.extent c ∧ c % align = 0
  tiles : ∀ x, lo ≤ x → x < hi → ∃! c, c ∈ h.chunkList ∧ c ≤ x ∧ x < c + h.extent c
  sentinels : h.isUsed h.firstChunk ∧ h.isUsed h.lastChunk
  coalesced : List.IsChain (fun a b => h.isUsed a ∨ h.isUsed b) h.chunkList
  heads : ∀ n, h.freeChunk n = (free n).headD 0
  rings : ∀ n, Ring 4 h.mem ((free n).map (· + headerSize))
  nodup : ∀ n, (free n).Nodup
  mem_free : ∀ n c, c ∈ free n ↔
    c ∈ h.chunkList ∧ h.isUsed c = false ∧ n = Nat.log 2 (memoryChunkSize h.mem c)

/-- The payload of the allocation at `p`. -/
def payload (h : KHeap) (p : ℕ) : Set ℕ :=
  {x | p ≤ x ∧ x < p + memoryChunkSize h.mem (p - headerSize)}

/-- The sizes of the used chunks between the sentinels. -/
def usedSum (h : KHeap) : ℕ :=
  ((h.chunkList.filter fun c => c ≠ h.firstChunk ∧ c ≠ h.lastChunk ∧ h.isUsed c).map
    (memoryChunkSize h.mem)).sum

/-- The ring of the chunks, the free lists and the counters are the same in `h'`. -/
structure Untouched (h h' : KHeap) : Prop where
  chunks : h'.chunkList = h.chunkList
  ring : ∀ c ∈ h.chunkList, h'.mem c = h.mem c ∧ h'.mem (c + 4) = h.mem (c + 4)
  used : ∀ c ∈ h.chunkList, h'.isUsed c = h.isUsed c
  heads : h'.freeChunk = h.freeChunk
  free : ∀ c ∈ h.chunkList, h.isUsed c = false →
    h'.mem (c + headerSize) = h.mem (c + headerSize)
    ∧ h'.mem (c + headerSize + 4) = h.mem (c + headerSize + 4)
  counters : h'.memFree = h.memFree ∧ h'.kheapMemUsed = h.kheapMemUsed ∧ h'.memMeta = h.memMeta

end KHeap

/-- `p` is the payload of a chunk of `h`, aligned, with `size` bytes before the next chunk, and no
byte of it is in the payload of an allocation of `live` or in a chunk header. -/
def KHeap.Grants (h : KHeap) (live : List ℕ) (size p : ℕ) : Prop :=
  ∃ c ∈ h.chunkList, p = c + headerSize ∧ p % 4 = 0 ∧ p + size ≤ h.mem c ∧ h.mem c ≤ h.lastChunk
    ∧ (∀ q ∈ live, Disjoint (h.payload p) (h.payload q))
    ∧ ∀ d ∈ h.chunkList, ∀ x ∈ h.payload p, ¬ (d ≤ x ∧ x < d + headerSize)

/-- What a caller may rely on when `kmalloc size` answers in `s`. -/
def KmallocContract (s : HeapSys) (size : ℕ) : Prop :=
  (s.heap.kmalloc size).2 ≠ 0 → (s.heap.kmalloc size).1.Grants s.live size (s.heap.kmalloc size).2

/-- `kheap_mem_used` is what is in use, nothing when nothing is allocated, and no `kfree` takes
more from it than it has. -/
structure Accounted (s : HeapSys) : Prop where
  sum : s.heap.kheapMemUsed = s.heap.usedSum
  none : s.live = [] → s.heap.kheapMemUsed = 0
  covers : ∀ p ∈ s.live, memoryChunkSize s.heap.mem (p - headerSize) ≤ s.heap.kheapMemUsed

/-- The size that `kmalloc` looks for, as a number: up to the alignment, at least `MIN_SIZE`. -/
def KHeap.rounded (size : ℕ) : ℕ := max (KHeap.alignDown (size + (align - 1))) minSize

/-- Either `kmalloc size` finds no chunk, or the chunk it takes is large enough to be split. -/
def Splits (s : HeapSys) (size : ℕ) : Prop :=
  ∀ n, KHeap.findSlot s.heap.freeChunk (KHeap.roundSize size) = some n →
    KHeap.roundSize size + sizeofMemChunk ≤ memoryChunkSize s.heap.mem (s.heap.freeChunk n)

end RTLKIM

import RTLKIM.MemAlloc

/-!
# The pool of free pages

`memalloc_init` on the memory map, and `memalloc_alloc_kpages` and `memalloc_free_kpages` on the
list headed by `kernel_free_pages`. The pages of the pool start at `_kernel_start_phys` and stop
where the map has memory that is not free. `kmalloc` gives the address of each node: those of the
frames' list by the entry of the map, and those of the pages' list by the rounds left.
-/

namespace RTLKIM

/-- `KERNEL_MEM_OFFSET`. -/
abbrev kernelMemOffset : ℕ := 0xE0000000

/-- `ARCH_MAX_ADDRESS`. -/
abbrev archMaxAddress : ℕ := 0xFFFFFFFF

/-- `mem_range_t`. -/
structure MemRange where
  base : ℕ
  limit : ℕ
  type : ℕ
  deriving DecidableEq

/-- The addresses of `_kernel_end` and `_kernel_start_phys`. -/
structure KernelLayout where
  kernelEnd : ℕ
  kernelStartPhys : ℕ

namespace Pool

/-- No node. -/
def empty : Pool := ⟨fun _ => ⟨0, 0, 0, 0⟩, [], 0⟩

/-- The sequence of areas. -/
def areas (P : Pool) : List Area := P.areaList.map P.area

/-- The loop of `memalloc_init` over the map: the free frames past the kernel. -/
def initFrames (K : KernelLayout) (kmalloc : ℕ → ℕ) : List MemRange → Pool → Option (Pool × PoolErr)
  | [], P => some (P, .noErr)
  | r :: m, P =>
    let kernelEnd := sub32 K.kernelEnd kernelMemOffset
    if r.type = 1 ∧ kernelEnd < r.limit then
      let start := max kernelEnd r.base
      match P.addFree start (sub32 r.limit start) (kmalloc m.length) with
      | some (P, .noErr) => P.initFrames K kmalloc m
      | r => r
    else P.initFrames K kmalloc m

/-- The first base past `start` of memory that is not free. -/
def nextLimit (m : List MemRange) (start : ℕ) : ℕ :=
  ((m.find? fun r => r.type ≠ 1 ∧ start < r.base).map MemRange.base).getD archMaxAddress

/-- The first base past `limit` of free memory, or `nextStart` as it was. -/
def nextStart (m : List MemRange) (limit nextStart : ℕ) : ℕ :=
  ((m.find? fun r => r.type = 1 ∧ limit < r.base).map MemRange.base).getD nextStart

/-- The `while` loop of `memalloc_init`, for at most `fuel` rounds. -/
def initPages (m : List MemRange) (kmalloc : ℕ → ℕ) : ℕ → ℕ → ℕ → Pool → Option (Pool × PoolErr)
  | 0, _, _, _ => none
  | fuel + 1, start, next, P =>
    if start = 0 then some (P, .noErr)
    else
      let limit := nextLimit m start
      let next := nextStart m limit next
      match P.addFree start (sub32 limit start) (kmalloc fuel) with
      | some (P, .noErr) =>
        P.initPages m kmalloc fuel (if limit = archMaxAddress then 0 else next) next
      | r => r

/-- `memalloc_init`: the free frames, the free pages and the code it returns. -/
def memallocInit (K : KernelLayout) (m : List MemRange) (kmalloc : ℕ → ℕ) (fuel : ℕ) :
    Option (Pool × Pool × PoolErr) :=
  (empty.initFrames K (fun i => kmalloc (fuel + i)) m).bind fun (frames, err) =>
    if err ≠ .noErr then some (frames, empty, err)
    else (empty.initPages m kmalloc fuel K.kernelStartPhys 0).map
      fun (pages, err) => (frames, pages, err)

/-- `memalloc_alloc_kpages`. -/
def allocKpages (P : Pool) (pageCount : ℕ) : Option (Pool × ℕ × PoolErr) := P.getBlock pageCount

/-- The least address that `memalloc_free_kpages` takes. -/
def kpagesGuard (K : KernelLayout) : ℕ := add32 kernelMemOffset K.kernelEnd

/-- `memalloc_free_kpages`, with the address its `kmalloc` returns. -/
def freeKpages (K : KernelLayout) (P : Pool) (pageAddr pageCount node : ℕ) :
    Option (Pool × PoolErr) :=
  if pageAddr < kpagesGuard K then some (P, .unauthorizedAction)
  else P.addFree pageAddr (mul32 pageCount kernelPageSize) node

end Pool

end RTLKIM

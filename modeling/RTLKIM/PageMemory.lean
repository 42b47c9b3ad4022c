import RTLKIM.Paging
import RTLKIM.Lib.Walk
import Mathlib.Data.Finset.Card

/-!
# Mapping pages through the window

`is_mapped`, `kernel_mmap_internal`, `kernel_mmap_hw` and `kernel_mmap` of the i386 `paging.c` with
the directory and the tables in memory. The code reads and writes their words at addresses of the
recursive window, and those addresses are walked through the tables like any other: an access to a
page that is not present is a fault, and the call has no result. All pages of 4 KiB; the TLB is left
out, and so is the protection of pages from writes of the kernel.

`paging` is what the code sees through the window, the state of `Paging`.
-/

namespace RTLKIM

/-- `PAGING_RECUR_PG_DIR`. -/
abbrev pagingRecurPgDir : ℕ := 0xFFFFF000

/-- The memory that has the page tables, and `kernel_free_frames`. -/
structure PageMemory where
  memory : Memory
  pool : Pool

namespace PageMemory

def setPool (s : PageMemory) (P : Pool) : PageMemory := { s with pool := P }

/-- `pgdir_rec_addr[pgdir_entry]`. -/
def readDir (s : PageMemory) (pgdirEntry : ℕ) : Option ℕ :=
  s.memory.load (pagingRecurPgDir + 4 * pgdirEntry)

/-- `pgtable[pgtable_entry]`, where `pgtable` is the address of the table in the window. -/
def readTable (s : PageMemory) (pgdirEntry pgtableEntry : ℕ) : Option ℕ :=
  s.memory.load (pagingRecurPgTable + kernelPageSize * pgdirEntry + 4 * pgtableEntry)

def writeDir (s : PageMemory) (pgdirEntry w : ℕ) : Option PageMemory :=
  (s.memory.store (pagingRecurPgDir + 4 * pgdirEntry) w).map fun m => { s with memory := m }

def writeTable (s : PageMemory) (pgdirEntry pgtableEntry w : ℕ) : Option PageMemory :=
  (s.memory.store (pagingRecurPgTable + kernelPageSize * pgdirEntry + 4 * pgtableEntry) w).map
    fun m => { s with memory := m }

/-- The loop of `is_mapped` at one page. -/
def checkPage (s : PageMemory) (_found : Bool) (startAlign : ℕ) : Option (Bool × Bool) :=
  (s.readDir (pgdirEntry startAlign)).bind fun dir =>
    if dir &&& pageFlagPresent ≠ 0 then
      (s.readTable (pgdirEntry startAlign) (pgtableEntry startAlign)).map fun page =>
        if page &&& pageFlagPresent ≠ 0 then (true, true) else (false, false)
    else some (false, false)

/-- `is_mapped`. -/
def isMapped (s : PageMemory) (startAddr size : ℕ) : Option Bool :=
  let startAlign := startAddr &&& pageAlignMask
  let toCheck := add32 size (sub32 startAddr startAlign)
  sweep kernelPageSize s.checkPage (toCheck + 1) false startAlign toCheck

/-! ## Mapping -/

/-- The state of the loop of `kernel_mmap_internal`. -/
structure MapState where
  tables : PageMemory
  physAlign : ℕ
  err : PoolErr

/-- The loop that zeroes a new table, at the entries `is`. -/
def zeroTable (pgdirEntry : ℕ) : List ℕ → PageMemory → Option PageMemory
  | [], s => some s
  | i :: is, s => (s.writeTable pgdirEntry i 0).bind (zeroTable pgdirEntry is)

/-- The table of a directory entry, in a frame of the pool if there is none. -/
def allocTable (s : PageMemory) (pgdirEntry : ℕ) : Option (PageMemory × PoolErr) :=
  (s.readDir pgdirEntry).bind fun dir =>
    if dir &&& pageFlagPresent ≠ 0 then some (s, .noErr)
    else
      (s.pool.getBlock 1).bind fun (P, pgtable, err) =>
        if err ≠ .noErr then some (s.setPool P, err)
        else
          ((s.setPool P).writeDir pgdirEntry (pgtable ||| pageFlagReadWrite ||| pageFlagPresent)).bind
            fun s => (zeroTable pgdirEntry (List.range kernelPgdirSize) s).map fun s => (s, .noErr)

/-- The loop of `kernel_mmap_internal` at one page. -/
def mapPage (readOnly cacheEnabled hardware : Bool) (s : MapState) (virtAlign : ℕ) :
    Option (MapState × Bool) :=
  (s.tables.allocTable (pgdirEntry virtAlign)).bind fun (m, err) =>
    if err ≠ .noErr then some (⟨m, s.physAlign, err⟩, true)
    else
      (m.writeTable (pgdirEntry virtAlign) (pgtableEntry virtAlign)
        (Paging.pageEntry s.physAlign readOnly cacheEnabled hardware)).map fun m =>
          (⟨m, add32 s.physAlign kernelPageSize, err⟩, false)

/-- `kernel_mmap_internal`; `exec` is not read. -/
def kernelMmapInternal (s : PageMemory) (virtAddr physAddr mappingSize : ℕ)
    (readOnly _exec cacheEnabled hardware : Bool) : Option (PageMemory × PagingErr) :=
  let virtAlign := virtAddr &&& pageAlignMask
  let physAlign := physAddr &&& pageAlignMask
  let toMap := add32 mappingSize (sub32 virtAddr virtAlign)
  (s.isMapped virtAlign toMap).bind fun mapped =>
    if mapped then some (s, .mappingAlreadyExists)
    else
      (sweep kernelPageSize (mapPage readOnly cacheEnabled hardware) (toMap + 1)
        ⟨s, physAlign, .noErr⟩ virtAlign toMap).map fun s => (s.tables, .pool s.err)

/-- `kernel_mmap_hw`. -/
def kernelMmapHw (s : PageMemory) (virtAddr physAddr mappingSize : ℕ) (readOnly exec : Bool) :
    Option (PageMemory × PagingErr) :=
  s.kernelMmapInternal virtAddr physAddr mappingSize readOnly exec false true

section Free

variable (kmalloc : ℕ → Pool → ℕ)

/-- `memalloc_free_kframes`. -/
def freeKframes (s : PageMemory) (frameAddr frameCount : ℕ) : Option PageMemory :=
  (s.pool.addFree frameAddr (mul32 frameCount kernelPageSize) (kmalloc frameAddr s.pool)).map
    fun r => s.setPool r.1

/-- `kernel_mmap`. -/
def kernelMmap (s : PageMemory) (virtAddr mappingSize : ℕ) (readOnly exec : Bool) :
    Option (PageMemory × PagingErr) :=
  let startMap := virtAddr &&& pageAlignMask
  let pageCount := sub32 (endMap virtAddr mappingSize) startMap / kernelPageSize
  (s.pool.getBlock pageCount).bind fun (P, frames, err) =>
    if err ≠ .noErr then some (s.setPool P, .pool err)
    else
      ((s.setPool P).kernelMmapInternal virtAddr frames mappingSize readOnly exec true false).bind
        fun (s, err) =>
          if err ≠ .pool .noErr then
            (freeKframes kmalloc s frames pageCount).map fun s => (s, err)
          else some (s, err)

end Free

/-! ## Well-formed states -/

/-- The frame of the table of a directory entry; the last is the directory. -/
def tableFrame (s : PageMemory) (d : ℕ) : ℕ := entryFrame (s.memory.dirWord d)

/-- The directory has a table at `d`. -/
def Present (s : PageMemory) (d : ℕ) : Prop := s.memory.dirWord d &&& pageFlagPresent ≠ 0

instance (s : PageMemory) (d : ℕ) : Decidable (s.Present d) := inferInstanceAs (Decidable (_ ≠ _))

/-- Two levels of tables with the recursive mapping: the directory and each table have a frame of
their own, which is not free. -/
structure PageTables (s : PageMemory) : Prop where
  recursive : s.memory.Recursive
  own : ∀ d < kernelPgdirSize, ∀ d' < kernelPgdirSize, s.Present d → s.Present d' →
    s.tableFrame d = s.tableFrame d' → d = d'
  taken : ∀ d < kernelPgdirSize, s.Present d → ∀ a ∈ s.pool.areaList.map s.pool.area,
    s.tableFrame d * kernelPageSize ∉ a.bytes
  pool : ∃ l, s.pool.PageAreas l

/-- What the code sees through the window. -/
def paging (s : PageMemory) : Paging :=
  ⟨s.memory.dirWord, fun d => s.memory.word (s.tableFrame d), s.pool⟩

/-! ## Failed calls -/

/-- The free frames. -/
def freeFrames (s : PageMemory) : Set ℕ :=
  {f | f * kernelPageSize ∈ covered (s.pool.areaList.map s.pool.area)}

/-- How many there are. -/
def freeCount (s : PageMemory) : ℕ :=
  ((s.pool.areaList.map s.pool.area).map Area.size).sum / kernelPageSize

/-- The directory and the tables of `r` are those of `s`. -/
structure SameTables (s r : PageMemory) : Prop where
  dir : ∀ d < kernelPgdirSize, r.memory.dirWord d = s.memory.dirWord d
  tables : ∀ d < kernelPgdirSize, s.Present d → ∀ i < kernelPgdirSize,
    r.memory.word (s.tableFrame d) i = s.memory.word (s.tableFrame d) i

/-- So are the free frames. -/
structure Unchanged (s r : PageMemory) : Prop extends SameTables s r where
  free : r.freeFrames = s.freeFrames

/-- The number of pages of a region. -/
def regionCount (virt size : ℕ) : ℕ :=
  (add32 size (sub32 virt (virt &&& pageAlignMask)) + (kernelPageSize - 1)) / kernelPageSize

/-- The pages of a region in the order the loops come to them: the addresses wrap. -/
def regionPage (virt k : ℕ) : ℕ := (virt / kernelPageSize + k) % 2 ^ 20

/-- A page of the region is mapped. -/
def HasPage (s : PageMemory) (virt size : ℕ) : Prop :=
  ∃ k < regionCount virt size, (s.memory.walk (regionPage virt k * kernelPageSize)).isSome

/-- The directory entries that the region needs a table for. -/
def missingTables (s : PageMemory) (virt size : ℕ) : Finset ℕ :=
  {d ∈ Finset.range kernelPgdirSize |
    ¬ s.Present d ∧ ∃ k < regionCount virt size, regionPage virt k / kernelPgdirSize = d}

/-- There are frames for the pages of the region, none of which is mapped, but not for all the
tables it needs, and the one that is wanting is not that of the first page. -/
def RunsOut (s : PageMemory) (virt size : ℕ) : Prop :=
  (∃ a ∈ s.pool.areaList.map s.pool.area, regionCount virt size * kernelPageSize ≤ a.size)
    ∧ ¬ s.HasPage virt size
    ∧ s.freeCount < regionCount virt size + (s.missingTables virt size).card
    ∧ (s.Present (regionPage virt 0 / kernelPgdirSize) ∨ regionCount virt size < s.freeCount)

end PageMemory

end RTLKIM

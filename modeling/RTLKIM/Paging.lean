import RTLKIM.MemAlloc
import RTLKIM.Lib.Sweep

/-!
# Mapping pages

`is_mapped`, `kernel_mmap_internal`, `kernel_mmap` and `kernel_munmap` of the i386 `paging.c`, over
the pool of frames. The code reads and writes the page tables through the recursive window, the
table of directory entry `d` at `PAGING_RECUR_PG_TABLE + KERNEL_PAGE_SIZE * d`; `pgtable d` is what
it finds there, so the tables of two entries are two tables, and none is in a frame of the pool.
Addresses, entries and frames are words.

`kmalloc addr P` is the address `kmalloc` returns for a node when the frame at `addr` is given back
to the pool `P`. The lock makes each call one step, and the TLB is left out.
-/

namespace RTLKIM

/-- `PAGE_ALIGN_MASK`. -/
abbrev pageAlignMask : ℕ := 0xFFFFF000

/-- `PG_ENTRY_MASK`. -/
abbrev pgEntryMask : ℕ := 0xFFFFF000

/-- `KERNEL_PGDIR_SIZE`, entries of the directory and of a table. -/
abbrev kernelPgdirSize : ℕ := 1024

/-- `PAGING_RECUR_PG_TABLE`, the start of the recursive window. -/
abbrev pagingRecurPgTable : ℕ := 0xFFC00000

/-- `PG_DIR_FLAG_PAGE_PRESENT` and `PAGE_FLAG_PRESENT`. -/
abbrev pageFlagPresent : ℕ := 0x001

/-- `PG_DIR_FLAG_PAGE_READ_WRITE` and `PAGE_FLAG_READ_WRITE`. -/
abbrev pageFlagReadWrite : ℕ := 0x002

/-- `PAGE_FLAG_CACHE_DISABLED`. -/
abbrev pageFlagCacheDisabled : ℕ := 0x010

/-- `PAGE_FLAG_HARDWARE`. -/
abbrev pageFlagHardware : ℕ := 0x200

/-- The codes of `OS_RETURN_E` that the calls return. -/
inductive PagingErr
  | pool (err : PoolErr)
  | mappingAlreadyExists
  deriving DecidableEq

/-- `kernel_pgdir`, the page tables and `kernel_free_frames`. -/
structure Paging where
  pgdir : ℕ → ℕ
  pgtable : ℕ → ℕ → ℕ
  pool : Pool

/-- `virt >> PG_DIR_OFFSET`. -/
def pgdirEntry (virt : ℕ) : ℕ := virt >>> 22

/-- `(virt >> PG_TABLE_OFFSET) & 0x3FF`. -/
def pgtableEntry (virt : ℕ) : ℕ := virt >>> 12 &&& 0x3FF

/-- The end of a region, rounded up: `end_map` of `kernel_mmap` and `kernel_munmap`. -/
def endMap (virt size : ℕ) : ℕ :=
  let stop := add32 virt size
  if stop % kernelPageSize ≠ 0 then add32 (stop &&& pageAlignMask) kernelPageSize else stop

namespace Paging

/-- The directory has a table at `d`. -/
def Present (p : Paging) (d : ℕ) : Prop := p.pgdir d &&& pageFlagPresent ≠ 0

/-- The table at `d` has a page at `i`. -/
def Mapped (p : Paging) (d i : ℕ) : Prop := p.pgtable d i &&& pageFlagPresent ≠ 0

instance (p : Paging) (d : ℕ) : Decidable (p.Present d) := inferInstanceAs (Decidable (_ ≠ _))

instance (p : Paging) (d i : ℕ) : Decidable (p.Mapped d i) := inferInstanceAs (Decidable (_ ≠ _))

def setPool (p : Paging) (P : Pool) : Paging := { p with pool := P }

def setDir (p : Paging) (d w : ℕ) : Paging := { p with pgdir := Function.update p.pgdir d w }

def setTable (p : Paging) (d : ℕ) (t : ℕ → ℕ) : Paging :=
  { p with pgtable := Function.update p.pgtable d t }

def setEntry (p : Paging) (d i w : ℕ) : Paging :=
  p.setTable d (Function.update (p.pgtable d) i w)

/-- The loop that zeroes a new table. -/
def zeroTable (p : Paging) (d : ℕ) : Paging :=
  p.setTable d fun i => if i < kernelPgdirSize then 0 else p.pgtable d i

/-- The loop of `is_mapped` at one page. -/
def checkPage (p : Paging) (_found : Bool) (startAlign : ℕ) : Option (Bool × Bool) :=
  if p.Present (pgdirEntry startAlign)
      ∧ p.Mapped (pgdirEntry startAlign) (pgtableEntry startAlign) then
    some (true, true)
  else some (false, false)

/-- `is_mapped`. -/
def isMapped (p : Paging) (startAddr size : ℕ) : Option Bool :=
  let startAlign := startAddr &&& pageAlignMask
  let toCheck := add32 size (sub32 startAddr startAlign)
  sweep kernelPageSize p.checkPage (toCheck + 1) false startAlign toCheck

/-! ## Mapping -/

/-- The state of the loop of `kernel_mmap_internal`. -/
structure MapState where
  paging : Paging
  physAlign : ℕ
  err : PoolErr

/-- The table of a directory entry, in a frame of the pool if there is none. -/
def allocTable (p : Paging) (d : ℕ) : Option (Paging × PoolErr) :=
  if p.Present d then some (p, .noErr)
  else
    (p.pool.getBlock 1).map fun (P, pgtable, err) =>
      if err ≠ .noErr then (p.setPool P, err)
      else (((p.setPool P).setDir d (pgtable ||| pageFlagReadWrite ||| pageFlagPresent)).zeroTable d,
        .noErr)

/-- The word for a page. -/
def pageEntry (physAlign : ℕ) (readOnly cacheEnabled hardware : Bool) : ℕ :=
  physAlign ||| (if readOnly then 0 else pageFlagReadWrite)
    ||| (if cacheEnabled then 0 else pageFlagCacheDisabled)
    ||| (if hardware then pageFlagHardware else 0) ||| pageFlagPresent

/-- The loop of `kernel_mmap_internal` at one page. -/
def mapPage (readOnly cacheEnabled hardware : Bool) (s : MapState) (virtAlign : ℕ) :
    Option (MapState × Bool) :=
  (s.paging.allocTable (pgdirEntry virtAlign)).map fun (p, err) =>
    if err ≠ .noErr then (⟨p, s.physAlign, err⟩, true)
    else
      (⟨p.setEntry (pgdirEntry virtAlign) (pgtableEntry virtAlign)
          (pageEntry s.physAlign readOnly cacheEnabled hardware),
        add32 s.physAlign kernelPageSize, err⟩, false)

/-- `kernel_mmap_internal`. -/
def kernelMmapInternal (p : Paging) (virtAddr physAddr mappingSize : ℕ)
    (readOnly cacheEnabled hardware : Bool) : Option (Paging × PagingErr) :=
  let virtAlign := virtAddr &&& pageAlignMask
  let physAlign := physAddr &&& pageAlignMask
  let toMap := add32 mappingSize (sub32 virtAddr virtAlign)
  (p.isMapped virtAlign toMap).bind fun mapped =>
    if mapped then some (p, .mappingAlreadyExists)
    else
      (sweep kernelPageSize (mapPage readOnly cacheEnabled hardware) (toMap + 1)
        ⟨p, physAlign, .noErr⟩ virtAlign toMap).map fun s => (s.paging, .pool s.err)

section Free

variable (kmalloc : ℕ → Pool → ℕ)

/-- `memalloc_free_kframes`. -/
def freeKframes (p : Paging) (frameAddr frameCount : ℕ) : Option Paging :=
  (p.pool.addFree frameAddr (mul32 frameCount kernelPageSize) (kmalloc frameAddr p.pool)).map
    fun r => p.setPool r.1

/-- `kernel_mmap`. -/
def kernelMmap (p : Paging) (virtAddr mappingSize : ℕ) (readOnly : Bool) :
    Option (Paging × PagingErr) :=
  let startMap := virtAddr &&& pageAlignMask
  let pageCount := sub32 (endMap virtAddr mappingSize) startMap / kernelPageSize
  (p.pool.getBlock pageCount).bind fun (P, frames, err) =>
    if err ≠ .noErr then some (p.setPool P, .pool err)
    else
      ((p.setPool P).kernelMmapInternal virtAddr frames mappingSize readOnly true false).bind
        fun (q, err) =>
          if err ≠ .pool .noErr then
            (freeKframes kmalloc q frames pageCount).map fun q => (q, err)
          else some (q, err)

/-! ## Unmapping -/

/-- No entry of the table is present: `acc == 0` after its loop. -/
def TableEmpty (p : Paging) (d : ℕ) : Prop := ∀ i < kernelPgdirSize, ¬ p.Mapped d i

instance (p : Paging) (d : ℕ) : Decidable (p.TableEmpty d) :=
  Nat.decidableBallLT kernelPgdirSize fun i _ => ¬ p.Mapped d i

/-- The page of an entry given back, unless it is mapped hardware, and the entry cleared. -/
def clearEntry (p : Paging) (d i : ℕ) : Option Paging :=
  if p.Mapped d i then
    (if p.pgtable d i &&& pageFlagHardware = 0 then
      freeKframes kmalloc p (p.pgtable d i &&& pgEntryMask) 1
    else some p).map fun p => p.setEntry d i 0
  else some p

/-- A table given back if it is empty. -/
def dropTable (p : Paging) (d : ℕ) : Option Paging :=
  if p.TableEmpty d then
    (freeKframes kmalloc p (p.pgdir d &&& pgEntryMask) 1).map fun p => p.setDir d 0
  else some p

/-- The loop of `kernel_munmap` at one page. -/
def unmapPage (p : Paging) (startMap : ℕ) : Option Paging :=
  if p.Present (pgdirEntry startMap) then
    (clearEntry kmalloc p (pgdirEntry startMap) (pgtableEntry startMap)).bind fun p =>
      dropTable kmalloc p (pgdirEntry startMap)
  else some p

/-- `kernel_munmap`. -/
def kernelMunmap (p : Paging) (virtAddr mappingSize : ℕ) : Option (Paging × PagingErr) :=
  let startMap := virtAddr &&& pageAlignMask
  let toUnmap := sub32 (endMap virtAddr mappingSize) startMap
  (sweep kernelPageSize (fun p addr => (unmapPage kmalloc p addr).map fun p => (p, false))
    (toUnmap + 1) p startMap toUnmap).map fun p => (p, .pool .noErr)

end Free

/-! ## Well-formed states -/

/-- Each table there is, below the recursive window, has a page. -/
def TablesUsed (p : Paging) : Prop := ∀ d < kernelPgdirSize - 1, p.Present d → ¬ p.TableEmpty d

/-- The entries of a region that are not present are zero: those of the directory where it has no
table, and those of its pages where it has one. -/
def Zeroed (p : Paging) (virt size : ℕ) : Prop :=
  ∀ addr, virt &&& pageAlignMask ≤ addr → addr < virt + size →
    (¬ p.Present (pgdirEntry addr) → p.pgdir (pgdirEntry addr) = 0)
      ∧ (p.Present (pgdirEntry addr) → ¬ p.Mapped (pgdirEntry addr) (pgtableEntry addr) →
        p.pgtable (pgdirEntry addr) (pgtableEntry addr) = 0)

/-- The directory, the tables in it and the areas of the pool are as in `p`. -/
structure Restored (p r : Paging) : Prop where
  pgdir : ∀ d, r.pgdir d = p.pgdir d
  pgtable : ∀ d, p.Present d → ∀ i < kernelPgdirSize, r.pgtable d i = p.pgtable d i
  areas : r.pool.areaList.map r.pool.area = p.pool.areaList.map p.pool.area

end Paging

/-- The list of the pool goes through the nodes `l`: sorted, disjoint areas of whole pages with gaps
between them. -/
structure Pool.AlignedAreas (P : Pool) (l : List ℕ) : Prop where
  dll : Dll (fun n => (P.nodes n).next) (fun n => (P.nodes n).prev) P.list l
  alive : ∀ n ∈ l, n ∈ P.alive
  sorted : (l.map P.area).Pairwise fun a b => a.start < b.start
  disjoint : (l.map P.area).Pairwise fun a b => Disjoint a.bytes b.bytes
  gaps : (l.map P.area).Pairwise fun a b => a.stop ≠ b.start ∧ b.stop ≠ a.start
  pages : ∀ a ∈ l.map P.area, a.start % kernelPageSize = 0 ∧ a.size % kernelPageSize = 0
  words : ∀ a ∈ l.map P.area, a.size < 2 ^ 32 ∧ a.stop ≤ 2 ^ 32

/-- None of them is empty. -/
structure Pool.PageAreas (P : Pool) (l : List ℕ) : Prop extends P.AlignedAreas l where
  pos : ∀ a ∈ l.map P.area, 0 < a.size

end RTLKIM

import RTLKIM.PageMemory
import RTLKIM.PagePool

/-!
# The first page tables

`map_kernel_section` and `paging_init` of the i386 `paging.c`. `kernel_pgdir` and `min_pgtable` are
frames of the memory, which the code reaches as it runs at `KERNEL_MEM_OFFSET` already. What a section is
mapped to is in memory already, so no frame is taken from the pool.
-/

namespace RTLKIM

/-- `KERNEL_RESERVED_PAGING`, the tables of `min_pgtable`. -/
abbrev kernelReservedPaging : ℕ := 4

/-- A section of the kernel: its first address and the one past it, and its protection. -/
structure KernelSection where
  start : ℕ
  stop : ℕ
  readOnly : Bool
  deriving DecidableEq

/-- The symbols of the linker script. -/
structure SectionLayout where
  codeStart : ℕ
  codeEnd : ℕ
  rodataStart : ℕ
  rodataEnd : ℕ
  dataStart : ℕ
  dataEnd : ℕ
  bssStart : ℕ
  bssEnd : ℕ
  structStart : ℕ
  structEnd : ℕ
  heapStart : ℕ
  heapEnd : ℕ

/-- The sections that `paging_init` maps, in order. -/
def SectionLayout.sections (L : SectionLayout) : List KernelSection :=
  [⟨L.codeStart, L.codeEnd, true⟩, ⟨L.rodataStart, L.rodataEnd, true⟩, ⟨L.dataStart, L.dataEnd, false⟩,
    ⟨L.bssStart, L.bssEnd, false⟩, ⟨L.structStart, L.structEnd, true⟩, ⟨L.heapStart, L.heapEnd, false⟩]

/-- The frames of `kernel_pgdir` and of the first table of `min_pgtable`. -/
structure KernelTables where
  kernelPgdir : ℕ
  minPgtable : ℕ

namespace Memory

/-- The loop of `map_kernel_section` at one page. -/
def mapKernelPage (F : KernelTables) (readOnly : Bool) (m : Memory) (startAddrAlign : ℕ) : Memory :=
  let pgDirEntry := startAddrAlign >>> 22
  let pgTableEntry := startAddrAlign >>> 12 &&& 0x3FF
  let minPgtableEntry := sub32 startAddrAlign kernelMemOffset >>> 22 &&& 0x3FF
  let m := m.setWord (F.minPgtable + minPgtableEntry) pgTableEntry
    (sub32 startAddrAlign kernelMemOffset ||| (if readOnly then 0 else pageFlagReadWrite) ||| pageFlagPresent)
  m.setWord F.kernelPgdir pgDirEntry
    ((F.minPgtable + minPgtableEntry) * kernelPageSize ||| pageFlagReadWrite ||| pageFlagPresent)

/-- `map_kernel_section`. -/
def mapKernelSection (F : KernelTables) (m : Memory) (s : KernelSection) : Option Memory :=
  let startAddrAlign := s.start &&& pageAlignMask
  let toMap := add32 (sub32 s.start startAddrAlign) (sub32 s.stop s.start)
  sweep kernelPageSize (fun m addr => some (mapKernelPage F s.readOnly m addr, false)) (toMap + 1) m
    startAddrAlign toMap

/-- The loop of `paging_init` that zeroes the directory. -/
def zeroPgdir (F : KernelTables) (m : Memory) : Memory :=
  (List.range kernelPgdirSize).foldl (fun m i => m.setWord F.kernelPgdir i 0) m

/-- `paging_init`, without the handler of page faults. -/
def pagingInit (F : KernelTables) (L : SectionLayout) (m : Memory) : Option Memory :=
  let m := m.zeroPgdir F
  let m := m.setWord F.kernelPgdir (kernelPgdirSize - 1)
    (F.kernelPgdir * kernelPageSize ||| pageFlagReadWrite ||| pageFlagPresent)
  (L.sections.foldlM (mapKernelSection F) m).map fun m => { m with cr3 := F.kernelPgdir }

end Memory

/-- A page of the section is the one of the address. -/
def KernelSection.Contains (s : KernelSection) (virt : ℕ) : Prop :=
  s.start / kernelPageSize ≤ virt / kernelPageSize ∧ virt / kernelPageSize * kernelPageSize < s.stop

instance (s : KernelSection) (virt : ℕ) : Decidable (s.Contains virt) :=
  inferInstanceAs (Decidable (_ ∧ _))

/-- The last section that has a page there. -/
def SectionLayout.sectionAt (L : SectionLayout) (virt : ℕ) : Option KernelSection :=
  L.sections.reverse.find? fun s => s.Contains virt

/-- The kernel is in the 16 MiB from `KERNEL_MEM_OFFSET` on that there are tables for. -/
def SectionLayout.Fits (L : SectionLayout) : Prop :=
  ∀ s ∈ L.sections, kernelMemOffset ≤ s.start ∧ s.start ≤ s.stop
    ∧ s.stop ≤ kernelMemOffset + kernelReservedPaging * 2 ^ 22

instance (L : SectionLayout) : Decidable L.Fits := inferInstanceAs (Decidable (∀ s ∈ L.sections, _))

/-- The directory and the tables are frames, none twice. -/
structure KernelTables.Apart (F : KernelTables) : Prop where
  pgdir : F.kernelPgdir < 2 ^ 20
  tables : F.minPgtable + kernelReservedPaging ≤ 2 ^ 20
  apart : F.kernelPgdir < F.minPgtable ∨ F.minPgtable + kernelReservedPaging ≤ F.kernelPgdir

/-- The tables are zeroes. -/
def KernelTables.Blank (F : KernelTables) (m : Memory) : Prop :=
  ∀ k < kernelReservedPaging, ∀ i < kernelPgdirSize, m.word (F.minPgtable + k) i = 0

/-- The frames of the directory and the tables. -/
def KernelTables.frames (F : KernelTables) : List ℕ :=
  F.kernelPgdir :: (List.range kernelReservedPaging).map (F.minPgtable + ·)

end RTLKIM

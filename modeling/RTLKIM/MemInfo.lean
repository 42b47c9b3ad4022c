import RTLKIM.PagePool

/-!
# The memory map

`memory_map_init` on the map that the bootloader left: entries at addresses, each with the size that
leads to the next one. Addresses and lengths have 64 bits, and the ranges registered have 32.
`total_memory` starts at 0.
-/

namespace RTLKIM

/-- `multiboot_memory_map_t`. -/
structure MmapEntry where
  size : UInt32
  addr : UInt64
  len : UInt64
  type : UInt32

/-- What `memory_map_init` reads: `mmap_addr` and `mmap_length`, and the entry at an address. -/
structure Multiboot where
  mmapAddr : UInt32
  mmapLength : UInt32
  entry : UInt32 → MmapEntry

/-- The size of `memory_map_data`. -/
abbrev memoryMapMax : ℕ := 100

/-- How the loop ends: with the ranges registered and `total_memory`, or with a write past the end
of `memory_map_data`. -/
inductive MemoryMap
  | done (data : List MemRange) (totalMemory : UInt64)
  | overrun
  deriving DecidableEq

/-- The range registered for an entry. -/
def MmapEntry.range (e : MmapEntry) : MemRange :=
  ⟨e.addr.toUInt32.toNat, (e.addr.toUInt32 + e.len.toUInt32).toNat, e.type.toNat⟩

namespace Multiboot

def mmap (B : Multiboot) : UInt32 := B.mmapAddr + UInt32.ofNat kernelMemOffset

def mmapEnd (B : Multiboot) : UInt32 := B.mmap + B.mmapLength

/-- The loop of `memory_map_init`, for at most `fuel` rounds. -/
def memoryMapLoop (B : Multiboot) : ℕ → UInt32 → List MemRange → UInt64 → Option MemoryMap
  | 0, _, _, _ => none
  | fuel + 1, mmap, data, total =>
    if mmap < B.mmapEnd then
      let e := B.entry mmap
      if data.length ≠ 0 ∧ e.addr.toUInt32 = 0 then some (.done data total)
      else if memoryMapMax ≤ data.length then some .overrun
      else B.memoryMapLoop fuel (mmap + (e.size + 4)) (data ++ [e.range]) (total + e.len)
    else some (.done data total)

/-- `memory_map_init`. -/
def memoryMapInit (B : Multiboot) (fuel : ℕ) : Option MemoryMap := B.memoryMapLoop fuel B.mmap [] 0

/-! ## What it is for -/

/-- Where the entries are, each after the one before. -/
def addrAt (B : Multiboot) : ℕ → UInt32
  | 0 => B.mmap
  | k + 1 => B.addrAt k + ((B.entry (B.addrAt k)).size + 4)

def entryAt (B : Multiboot) (k : ℕ) : MmapEntry := B.entry (B.addrAt k)

/-- The map has an entry `k`. -/
def InMap (B : Multiboot) (k : ℕ) : Prop := ∀ j ≤ k, B.addrAt j < B.mmapEnd

end Multiboot

/-- The part of an entry below 4 GiB, if it has one. -/
def MmapEntry.below (e : MmapEntry) : Option MemRange :=
  if e.addr.toNat < 2 ^ 32 then
    some ⟨e.addr.toNat, min (e.addr.toNat + e.len.toNat) (2 ^ 32), e.type.toNat⟩
  else none

/-- The loop ends inside `memory_map_data`. The ranges are the parts of their entries below 4 GiB,
and the entries that are not registered have none. -/
def Multiboot.Registers (B : Multiboot) : Prop :=
  ∃ fuel data total, B.memoryMapInit fuel = some (.done data total)
    ∧ (∀ k (h : k < data.length), (B.entryAt k).below = some data[k])
    ∧ ∀ k, data.length ≤ k → B.InMap k → (B.entryAt k).below = none

end RTLKIM

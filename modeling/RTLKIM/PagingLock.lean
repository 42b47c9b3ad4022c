import RTLKIM.LockSection
import RTLKIM.Paging

/-!
# The lock of the paging calls

The calls of the i386 `paging.c` with their critical sections on its `lock`: `is_mapped`,
`kernel_mmap_hw`, `kernel_mmap` and `kernel_munmap`, on one CPU. What they do to the tables between
is that of `Paging`. The calls to `memalloc.c` have sections on a lock of their own, which leave the
interrupts as they find them; those made while interrupts are off are left out.
-/

namespace RTLKIM

/-- A CPU, the lock of the paging calls and the tables. -/
structure LockedPaging where
  crit : CritState
  paging : Paging

/-- A call; `exec` is not read. -/
inductive PagingCall
  | isMapped (startAddr size : ℕ)
  | kernelMmapHw (virtAddr physAddr mappingSize : ℕ) (readOnly : Bool)
  | kernelMmap (virtAddr mappingSize : ℕ) (readOnly : Bool)
  | kernelMunmap (virtAddr mappingSize : ℕ)

/-- What a call returns. -/
inductive PagingRet
  | found (b : Bool)
  | code (err : PagingErr)
  deriving DecidableEq

/-- `to_map` of `kernel_mmap_internal`. -/
def toMap (virtAddr mappingSize : ℕ) : ℕ :=
  add32 mappingSize (sub32 virtAddr (virtAddr &&& pageAlignMask))

/-- `page_count` of `kernel_mmap`. -/
def pageCount (virtAddr mappingSize : ℕ) : ℕ :=
  sub32 (endMap virtAddr mappingSize) (virtAddr &&& pageAlignMask) / kernelPageSize

namespace LockedPaging

/-- `is_mapped`. -/
def isMapped (s : LockedPaging) (startAddr size : ℕ) : Option (LockedPaging × Bool) :=
  s.crit.enterCritical.bind fun (x, k) =>
    (s.paging.isMapped startAddr size).map fun found => (⟨k.exitCritical x, s.paging⟩, found)

/-- `kernel_mmap_internal`: it returns from inside its section when the region is mapped. -/
def kernelMmapInternal (s : LockedPaging) (virtAddr physAddr mappingSize : ℕ)
    (readOnly cacheEnabled hardware : Bool) : Option (LockedPaging × PagingErr) :=
  s.crit.enterCritical.bind fun (x, k) =>
    let virtAlign := virtAddr &&& pageAlignMask
    let physAlign := physAddr &&& pageAlignMask
    let toMap := toMap virtAddr mappingSize
    (isMapped ⟨k, s.paging⟩ virtAlign toMap).bind fun (s, mapped) =>
      if mapped then some (s, .mappingAlreadyExists)
      else
        (sweep kernelPageSize (Paging.mapPage readOnly cacheEnabled hardware) (toMap + 1)
          ⟨s.paging, physAlign, .noErr⟩ virtAlign toMap).map fun m =>
            (⟨s.crit.exitCritical x, m.paging⟩, .pool m.err)

/-- `kernel_mmap_hw`. -/
def kernelMmapHw (s : LockedPaging) (virtAddr physAddr mappingSize : ℕ) (readOnly : Bool) :
    Option (LockedPaging × PagingErr) :=
  s.kernelMmapInternal virtAddr physAddr mappingSize readOnly false true

section Free

variable (kmalloc : ℕ → Pool → ℕ)

/-- `kernel_mmap`. -/
def kernelMmap (s : LockedPaging) (virtAddr mappingSize : ℕ) (readOnly : Bool) :
    Option (LockedPaging × PagingErr) :=
  let pageCount := pageCount virtAddr mappingSize
  (s.paging.pool.getBlock pageCount).bind fun (P, frames, err) =>
    let s : LockedPaging := ⟨s.crit.otherSection, s.paging.setPool P⟩
    if err ≠ .noErr then some (s, .pool err)
    else
      (s.kernelMmapInternal virtAddr frames mappingSize readOnly true false).bind fun (s, err) =>
        if err ≠ .pool .noErr then
          (Paging.freeKframes kmalloc s.paging frames pageCount).map fun q =>
            (⟨s.crit.otherSection, q⟩, err)
        else some (s, err)

/-- `kernel_munmap`. -/
def kernelMunmap (s : LockedPaging) (virtAddr mappingSize : ℕ) :
    Option (LockedPaging × PagingErr) :=
  s.crit.enterCritical.bind fun (x, k) =>
    (Paging.kernelMunmap kmalloc s.paging virtAddr mappingSize).map fun (q, err) =>
      (⟨k.exitCritical x, q⟩, err)

def call (s : LockedPaging) : PagingCall → Option (LockedPaging × PagingRet)
  | .isMapped a n => (s.isMapped a n).map fun (s, b) => (s, .found b)
  | .kernelMmapHw v p n ro => (s.kernelMmapHw v p n ro).map fun (s, e) => (s, .code e)
  | .kernelMmap v n ro => (s.kernelMmap kmalloc v n ro).map fun (s, e) => (s, .code e)
  | .kernelMunmap v n => (s.kernelMunmap kmalloc v n).map fun (s, e) => (s, .code e)

/-- The call on the tables alone. -/
def tables (p : Paging) : PagingCall → Option (Paging × PagingRet)
  | .isMapped a n => (p.isMapped a n).map fun b => (p, .found b)
  | .kernelMmapHw v f n ro =>
    (p.kernelMmapInternal v f n ro false true).map fun (q, e) => (q, .code e)
  | .kernelMmap v n ro => (Paging.kernelMmap kmalloc p v n ro).map fun (q, e) => (q, .code e)
  | .kernelMunmap v n => (Paging.kernelMunmap kmalloc p v n).map fun (q, e) => (q, .code e)

end Free

/-! ## When the lock is left as it was -/

/-- The lock that sections one in the other give back: `value` is `0`, and the owner is the CPU, or
nobody after an `EXIT_CRITICAL` that came to nesting `0`. -/
def Rests (s : LockedPaging) (nested : Bool) : Prop :=
  s.crit.booted ≤ 1 ∨ s.crit.lock.value = 0 ∧ s.crit.lock.currentTid =
    if s.crit.lock.nesting = 0 ∨ nested = true ∧ s.crit.lock.nesting + 1 = 0 then -1
    else s.crit.cpuId

/-- A page of the region is mapped, so `kernel_mmap_internal` returns early. -/
def AlreadyMapped (s : LockedPaging) (virtAddr mappingSize : ℕ) : Prop :=
  s.paging.isMapped (virtAddr &&& pageAlignMask) (toMap virtAddr mappingSize) = some true

/-- There is no block of frames for the region. -/
def NoFrames (s : LockedPaging) (virtAddr mappingSize : ℕ) : Prop :=
  ∀ P a, s.paging.pool.getBlock (pageCount virtAddr mappingSize) ≠ some (P, a, .noErr)

/-- `kernel_mmap_internal` gives back the lock and the interrupts: it does not return early, unless
there is one CPU and its interrupts were off. -/
def MapBalances (s : LockedPaging) (virtAddr mappingSize : ℕ) : Prop :=
  (s.AlreadyMapped virtAddr mappingSize ∧ s.crit.booted ≤ 1 ∧ s.crit.ints = false)
    ∨ ¬ s.AlreadyMapped virtAddr mappingSize ∧ s.Rests true

def Balances (s : LockedPaging) : PagingCall → Prop
  | .isMapped _ _ | .kernelMunmap _ _ => s.Rests false
  | .kernelMmapHw v _ n _ => s.MapBalances v n
  | .kernelMmap v n _ => s.NoFrames v n ∨ s.MapBalances v n

end LockedPaging

end RTLKIM

import RTLKIM.PagePool

/-!
# The frames handed out

The pool of frames from the memory map on: the loop of `memalloc_init`, then calls of
`memalloc_alloc_kframes`. The memory of a node that was given back is no longer the pool's, and may
be written at any time.
-/

namespace RTLKIM

/-- Where the frames start, after the kernel. -/
def KernelLayout.firstFrame (K : KernelLayout) : ℕ := sub32 K.kernelEnd kernelMemOffset

/-- The range is free and has bytes after the kernel. -/
def MemRange.HasFrames (K : KernelLayout) (r : MemRange) : Prop :=
  r.type = 1 ∧ K.firstFrame < r.limit

instance (K : KernelLayout) (r : MemRange) : Decidable (r.HasFrames K) :=
  inferInstanceAs (Decidable (_ ∧ _))

def MemRange.bytes (r : MemRange) : Set ℕ := Set.Ico r.base r.limit

/-- The bytes of free ranges after the kernel. -/
def freeBytes (K : KernelLayout) (m : List MemRange) : Set ℕ :=
  {x | K.firstFrame ≤ x ∧ ∃ r ∈ m, r.type = 1 ∧ x ∈ r.bytes}

/-- Every `kmalloc` of the loop over the map succeeds: it returns no `NULL` and no node alive. -/
def FreshFrames (K : KernelLayout) (kmalloc : ℕ → ℕ) : List MemRange → Pool → Prop
  | [], _ => True
  | r :: m, P =>
    if r.HasFrames K then
      (kmalloc m.length ≠ 0 ∧ kmalloc m.length ∉ P.alive)
        ∧ ∀ P', P.addFree (max K.firstFrame r.base) (sub32 r.limit (max K.firstFrame r.base))
          (kmalloc m.length) = some (P', .noErr) → FreshFrames K kmalloc m P'
    else FreshFrames K kmalloc m P

/-- The frames of `S` that are in one piece start at a page. -/
def Paged (S : Set ℕ) : Prop :=
  ∀ x, (∀ i < kernelPageSize, x + i ∈ S) → (∀ y ∈ S, y + 1 ≠ x) → x % kernelPageSize = 0

/-- The pool, and the blocks of frames allocated by address and count. -/
structure FrameSys where
  pool : Pool
  given : List (ℕ × ℕ)

/-- A call of `memalloc_alloc_kframes`, or memory that is no node's written. -/
inductive FrameEv
  | allocKframes (count : ℕ)
  | write (addr : ℕ) (a : MemArea)

namespace FrameSys

def step (s : FrameSys) : FrameEv → Option FrameSys
  | .allocKframes count =>
    if 1 ≤ count ∧ count < 2 ^ 32 then
      (s.pool.getBlock count).map fun r =>
        ⟨r.1, if r.2.2 = .noErr then (r.2.1, count) :: s.given else s.given⟩
    else none
  | .write addr a =>
    if addr ∈ s.pool.alive then none else some { s with pool := s.pool.setNode addr a }

/-- The size asked for does not wrap, or no area has what is left of it. -/
def Sized (s : FrameSys) : FrameEv → Prop
  | .allocKframes count => count * kernelPageSize < 2 ^ 32
      ∨ ∀ n ∈ s.pool.areaList, (s.pool.nodes n).size < mul32 kernelPageSize count
  | .write _ _ => True

instance (s : FrameSys) : ∀ e, Decidable (s.Sized e)
  | .allocKframes _ => inferInstanceAs (Decidable (_ ∨ _))
  | .write _ _ => instDecidableTrue

end FrameSys

end RTLKIM

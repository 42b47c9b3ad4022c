import RTLKIM.FastCopy

/-!
# Copies between regions that overlap

`memmove`, on the memory and the two pointers of the fast copy.
-/

namespace RTLKIM

namespace FastCopy

/-- `movsb`; `df` is the direction flag. -/
def movsb (df : Bool) (s : FastCopy) : FastCopy where
  mem := Function.update s.mem s.dst (s.mem s.src)
  reads := s.reads ++ [s.src]
  writes := s.writes ++ [s.dst]
  src := if df then sub32 s.src 1 else add32 s.src 1
  dst := if df then sub32 s.dst 1 else add32 s.dst 1

/-- `memmove`. -/
def memmove (mem : ℕ → UInt8) (dst src n : ℕ) : FastCopy :=
  if dst < src then (movsb false)^[n] ⟨mem, [], [], src, dst⟩
  else (movsb true)^[n] ⟨mem, [], [], add32 src (sub32 n 1), add32 dst (sub32 n 1)⟩

/-- `memcpy`, the copy of `fast_memcpy` without SSE. -/
def memcpy (mem : ℕ → UInt8) (dst src n : ℕ) : FastCopy := repMovs ⟨mem, [], [], src, dst⟩ n

/-- A copy of `n` bytes, as they were at the start, that touches nothing else. -/
structure Moves (mem : ℕ → UInt8) (dst src n : ℕ) (s : FastCopy) : Prop where
  mem : s.mem = copied mem dst src n
  reads : ∀ a ∈ s.reads, src ≤ a ∧ a < src + n
  writes : ∀ a ∈ s.writes, dst ≤ a ∧ a < dst + n

end FastCopy

end RTLKIM

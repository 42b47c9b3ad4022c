import RTLKIM.Lib.Word

/-!
# The fast copy of the VESA driver

`fast_memcpy`, on bytes at addresses of 32 bits. An instruction loads its bytes from the source, stores
them at the destination, and moves both pointers; the addresses are kept.
-/

namespace RTLKIM

/-- Memory, the addresses that were read and written, and the two pointers. -/
structure FastCopy where
  mem : ℕ → UInt8
  reads : List ℕ
  writes : List ℕ
  src : ℕ
  dst : ℕ

namespace FastCopy

/-- The `n` addresses from `a` on. -/
def addresses (a n : ℕ) : List ℕ := (List.range n).map (add32 a)

/-- The memory with `n` bytes from `src` stored at `dst`. -/
def storeBytes (mem : ℕ → UInt8) (src dst n : ℕ) : ℕ → UInt8 := fun a =>
  if a < 2 ^ 32 ∧ sub32 a dst < n then mem (add32 src (sub32 a dst)) else mem a

/-- `k` bytes at once: `movups` and `movntdq`, `movsl`, or `movsb`. -/
def moveBytes (k : ℕ) (s : FastCopy) : FastCopy where
  mem := storeBytes s.mem s.src s.dst k
  reads := s.reads ++ addresses s.src k
  writes := s.writes ++ addresses s.dst k
  src := add32 s.src k
  dst := add32 s.dst k

/-- `rep movsl`, then `rep movsb` for what is left. -/
def repMovs (s : FastCopy) (n : ℕ) : FastCopy := (moveBytes 1)^[n % 4] ((moveBytes 4)^[n / 4] s)

/-- `fast_memcpy`; `sse` is what `cpu_is_sse_enabled` says. -/
def fastMemcpy (sse : Bool) (mem : ℕ → UInt8) (dst src size : ℕ) : FastCopy :=
  let s : FastCopy := ⟨mem, [], [], src, dst⟩
  if sse then
    let s := (moveBytes 16)^[size / 16] s
    if size % 0x7 ≠ 0 then s.repMovs size else s
  else s.repMovs size

/-- The memory with `size` bytes copied. -/
def copied (mem : ℕ → UInt8) (dst src size : ℕ) : ℕ → UInt8 := fun a =>
  if dst ≤ a ∧ a < dst + size then mem (src + (a - dst)) else mem a

/-- The two regions are in the address space, and apart. -/
structure Apart (dst src size : ℕ) : Prop where
  size_lt : size < 2 ^ 32
  dst_lt : dst < 2 ^ 32
  src_lt : src < 2 ^ 32
  dst_le : dst + size ≤ 2 ^ 32
  src_le : src + size ≤ 2 ^ 32
  apart : src + size ≤ dst ∨ dst + size ≤ src

/-- The bytes of the destination after the last whole block are those of the source. -/
def TailEqual (mem : ℕ → UInt8) (dst src size : ℕ) : Prop :=
  ∀ i < size, size / 16 * 16 ≤ i → mem (dst + i) = mem (src + i)

/-- The copy with SSE leaves memory as the plain one does, with bytes `0..size-1` copied, and touches
nothing beyond them. -/
structure Agrees (mem : ℕ → UInt8) (dst src size : ℕ) : Prop where
  plain : (fastMemcpy true mem dst src size).mem = (fastMemcpy false mem dst src size).mem
  bytes : (fastMemcpy true mem dst src size).mem = copied mem dst src size
  reads : ∀ a ∈ (fastMemcpy true mem dst src size).reads, src ≤ a ∧ a < src + size
  writes : ∀ a ∈ (fastMemcpy true mem dst src size).writes, dst ≤ a ∧ a < dst + size

end FastCopy

end RTLKIM

import RTLKIM.KHeap
import Mathlib.Data.Nat.Log
import Mathlib.Data.List.Chain

/-!
# The heap as a list of blocks

What the kernel heap is for, without its links: the region from `lo` to `hi` is cut into blocks,
each used or free, no two free ones side by side, and the free blocks are kept by the logarithm
of their size, the last freed first. `alloc` cuts a block from the first free one of the first
slot that surely fits, `free` gives one back and joins it to its free neighbours.
-/

namespace RTLKIM

/-- A block: its header at `addr`, then `size` bytes of payload. -/
structure Blk where
  addr : ℕ
  size : ℕ
  used : Bool
  deriving DecidableEq

/-- The blocks between the sentinels, by address, and the free ones by slot. -/
structure BlockHeap where
  blks : List Blk
  slots : ℕ → List ℕ

/-- Every block, the sentinels of the region included. -/
def chunks (lo hi : ℕ) (l : List Blk) : List Blk := ⟨lo, 8, true⟩ :: (l ++ [⟨hi - 20, 8, true⟩])

/-- The second block starts where the first ends. -/
def Adj (a b : Blk) : Prop := a.addr + 12 + a.size = b.addr

namespace BlockHeap

structure Wf (lo hi : ℕ) (A : BlockHeap) : Prop where
  tiles : List.IsChain Adj (chunks lo hi A.blks)
  coalesced : List.IsChain (fun a b => a.used ∨ b.used) A.blks
  fit : ∀ b ∈ A.blks, 8 ≤ b.size ∧ b.addr % 4 = 0
  mem_slots : ∀ n a, a ∈ A.slots n ↔
    ∃ b ∈ A.blks, b.addr = a ∧ b.used = false ∧ Nat.log 2 b.size = n
  nodup : ∀ n, (A.slots n).Nodup

/-- The blocks before the one at `c`, and the rest. -/
def before (l : List Blk) (c : ℕ) : List Blk := l.takeWhile (·.addr ≠ c)

/-- The block at `c` and those after it. -/
def onward (l : List Blk) (c : ℕ) : List Blk := l.dropWhile (·.addr ≠ c)

/-- A slot with a block put first. -/
def pushSlot (slots : ℕ → List ℕ) (b : Blk) : ℕ → List ℕ :=
  Function.update slots (Nat.log 2 b.size) (b.addr :: slots (Nat.log 2 b.size))

/-- A slot with a block taken out. -/
def eraseSlot (slots : ℕ → List ℕ) (b : Blk) : ℕ → List ℕ :=
  Function.update slots (Nat.log 2 b.size) ((slots (Nat.log 2 b.size)).erase b.addr)

/-- The rest of `b` past `r` bytes. -/
def rest (b : Blk) (r : ℕ) : Blk := ⟨b.addr + 12 + r, b.size - r - 12, false⟩

/-- `r` bytes of the free block `b` used, the rest free if it holds a block. -/
def carve (slots : ℕ → List ℕ) (u : List Blk) (b : Blk) (v : List Blk) (r : ℕ) : BlockHeap :=
  if r + 20 ≤ b.size then
    ⟨u ++ ⟨b.addr, r, true⟩ :: rest b r :: v, pushSlot slots (rest b r)⟩
  else ⟨u ++ { b with used := true } :: v, slots⟩

/-- `r` bytes cut from the first free block of slot `n`: the heap and the payload. -/
def allocAt (A : BlockHeap) (n r : ℕ) : Option (BlockHeap × ℕ) :=
  match A.slots n with
  | [] => none
  | c :: l =>
    match onward A.blks c with
    | [] => none
    | b :: v => some (carve (Function.update A.slots n l) (before A.blks c) b v r, c + 12)

/-- The heap and the payload of a block of at least `size` bytes, if the search finds one. -/
def alloc (A : BlockHeap) (size : ℕ) : Option (BlockHeap × ℕ) :=
  (KHeap.findSlot (fun n => (A.slots n).headD 0) (KHeap.roundSize size)).bind fun n =>
    A.allocAt n (KHeap.roundSize size)

/-- `b` with the free block after it joined to it. -/
def absorbNext (slots : ℕ → List ℕ) (u : List Blk) (b : Blk) (v : List Blk) : BlockHeap :=
  match v with
  | [] => ⟨u ++ b :: v, slots⟩
  | d :: v' =>
    if d.used then ⟨u ++ b :: v, slots⟩
    else ⟨u ++ { b with size := b.size + 12 + d.size } :: v', eraseSlot slots d⟩

/-- `b` free, joined to the block before it if that one is free. -/
def release (slots : ℕ → List ℕ) (u : List Blk) (b : Blk) (v : List Blk) : BlockHeap :=
  match u.getLast? with
  | none => ⟨{ b with used := false } :: v, pushSlot slots b⟩
  | some p =>
    if p.used then ⟨u ++ { b with used := false } :: v, pushSlot slots b⟩
    else
      let q : Blk := { p with size := p.size + 12 + b.size }
      ⟨u.dropLast ++ q :: v, pushSlot (eraseSlot slots p) q⟩

/-- An operation on the block at `c`, told its slots, what is before, the block, and what is
after. -/
def onBlock (f : (ℕ → List ℕ) → List Blk → Blk → List Blk → BlockHeap) (A : BlockHeap) (c : ℕ) :
    BlockHeap :=
  match onward A.blks c with
  | [] => A
  | b :: v => f A.slots (before A.blks c) b v

/-- The block at `c` given back. -/
def free (A : BlockHeap) (c : ℕ) : BlockHeap := onBlock release (onBlock absorbNext A c) c

end BlockHeap

end RTLKIM

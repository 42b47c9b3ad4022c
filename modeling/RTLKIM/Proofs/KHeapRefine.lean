import RTLKIM.Proofs.KHeapLayout
import RTLKIM.Proofs.BlockHeap

/-!
# The kernel heap refines the block heap

`Rep` relates the memory to a block heap: the chunk ring goes through the blocks by address, the
`used` words are their flags, and the free rings are the slots. `kmalloc` and `kfree` do to the
memory what `alloc` and `free` do to the blocks, and return the same address, so what the heap
answers depends on the blocks and the slots only, never on what was left in the memory.
-/

namespace RTLKIM

/-- An aligned region with room for the three chunks `kheap_init` lays out. -/
structure Region (lo hi : ℕ) : Prop where
  lo_aligned : lo % 4 = 0
  hi_aligned : hi % 4 = 0
  room : lo + 60 ≤ hi
  hi_lt : hi < 2 ^ 32

/-- The variables that only `kheap_init` writes. -/
def KHeap.globals (h : KHeap) : ℕ × ℕ × ℕ := (h.init, h.firstChunk, h.lastChunk)

/-- The links and flags of `h`, in the region from `lo` to `hi`, are those of `A`. -/
structure Rep (lo hi : ℕ) (h : KHeap) (A : BlockHeap) : Prop where
  region : Region lo hi
  globals : h.globals = (1, lo, hi - 20)
  wf : A.Wf lo hi
  layout : Layout h.mem h.freeChunk ((chunks lo hi A.blks).map Blk.addr) A.slots
  flags : ∀ b ∈ chunks lo hi A.blks, h.mem (b.addr + 8) = if b.used then 1 else 0

/-! ## Sizes and slots -/

theorem memoryChunkSlotLoop_eq : ∀ (fuel : ℕ) (n : ℤ) (size : ℕ), size < 2 ^ fuel →
    memoryChunkSlotLoop fuel n size = if size = 0 then n else n + 1 + Nat.log 2 size
  | 0, n, size, h => by
    have : size = 0 := by omega
    simp [memoryChunkSlotLoop, this]
  | fuel + 1, n, size, h => by
    have hhalf : size / 2 < 2 ^ fuel := by
      rw [pow_succ] at h
      omega
    simp only [memoryChunkSlotLoop]
    rw [memoryChunkSlotLoop_eq fuel (n + 1) (size / 2) hhalf]
    rcases Nat.eq_zero_or_pos size with rfl | hs
    · simp
    · rw [if_pos hs, if_neg (by omega : size ≠ 0)]
      by_cases h1 : size = 1
      · subst h1
        simp
      · have hlog : Nat.log 2 size = Nat.log 2 (size / 2) + 1 :=
          Nat.log_of_one_lt_of_le (by omega) (by omega)
        rw [if_neg (by omega), hlog]
        push_cast
        omega

theorem memoryChunkSlot_eq {size : ℕ} (h0 : 0 < size) (h : size < 2 ^ 32) :
    memoryChunkSlot size = Nat.log 2 size := by
  rw [memoryChunkSlot, memoryChunkSlotLoop_eq 32 _ _ h, if_neg (by omega)]
  omega

namespace KHeap

theorem roundSize_eq (size : ℕ) : roundSize size =
    if add32 size 3 / 4 * 4 < 8 then 8 else add32 size 3 / 4 * 4 := rfl

theorem roundSize_spec (size : ℕ) :
    8 ≤ roundSize size ∧ roundSize size % 4 = 0 ∧ roundSize size < 2 ^ 32 := by
  have h := add32_lt size 3
  rw [roundSize_eq]
  split_ifs with h8
  · omega
  · omega

theorem le_roundSize {size : ℕ} (h : size + 3 < 2 ^ 32) : size ≤ roundSize size := by
  rw [roundSize_eq, add32_of_lt h]
  split_ifs with h8
  · omega
  · omega

theorem startSlot_eq {r : ℕ} (hr : 8 ≤ r) (hr' : r < 2 ^ 32) :
    startSlot r = Nat.log 2 (r - 1) + 1 := by
  have h : sub32 r 1 = r - 1 := sub32_of_le (by omega) hr'
  rw [startSlot, h, memoryChunkSlot_eq (by omega) (by omega)]
  exact Int.toNat_natCast _

theorem searchSlot_some {fc : ℕ → ℕ} : ∀ {k n n' : ℕ}, searchSlot fc k n = some n' →
    n ≤ n' ∧ n' < n + k ∧ fc n' ≠ 0
  | 0, n, n', h => by simp [searchSlot] at h
  | k + 1, n, n', h => by
    simp only [searchSlot] at h
    split_ifs at h with h0
    · obtain ⟨h1, h2, h3⟩ := searchSlot_some h
      exact ⟨by omega, by omega, h3⟩
    · cases h
      exact ⟨le_rfl, by omega, h0⟩

/-- A slot the search stops at holds chunks that surely fit. -/
theorem findSlot_some {fc : ℕ → ℕ} {r n : ℕ} (hr : 8 ≤ r) (hr' : r < 2 ^ 32)
    (h : findSlot fc r = some n) : fc n ≠ 0 ∧ n < 32 ∧ ∀ size, Nat.log 2 size = n → r ≤ size := by
  simp only [findSlot] at h
  split_ifs at h with hn
  obtain ⟨h1, h2, h3⟩ := searchSlot_some h
  have hs := startSlot_eq hr hr'
  refine ⟨h3, by simp only [numSizes] at h2 hn; omega, fun size hsize => ?_⟩
  have hn0 : n ≠ 0 := by omega
  have hpow : 2 ^ n ≤ size := by
    rw [← hsize]
    refine Nat.pow_log_le_self 2 fun h0 => ?_
    rw [h0, Nat.log_zero_right] at hsize
    exact hn0 hsize.symm
  have hlt : r - 1 < 2 ^ (Nat.log 2 (r - 1) + 1) := Nat.lt_pow_succ_log_self (by omega) _
  have hmono : 2 ^ (Nat.log 2 (r - 1) + 1) ≤ 2 ^ n := Nat.pow_le_pow_right (by omega) (by omega)
  omega

end KHeap

/-! ## What the operations leave alone -/

namespace KHeap

variable (h : KHeap) (c n r : ℕ)

theorem kmalloc_of_none {size : ℕ} (h0 : h.init ≠ 0)
    (hn : findSlot h.freeChunk (roundSize size) = none) : h.kmalloc size = (h, 0) := by
  simp only [kmalloc, h0, hn, if_false]

theorem kmalloc_of_some {size n : ℕ} (h0 : h.init ≠ 0)
    (hn : findSlot h.freeChunk (roundSize size) = some n) :
    h.kmalloc size = h.takeChunk n (roundSize size) := by
  simp only [kmalloc, h0, hn, if_false]

theorem listPop_globals : (h.listPop n).1.globals = h.globals := rfl

theorem splitChunk_globals : (h.splitChunk c r).1.globals = h.globals := rfl

theorem splitChunk_kheapMemUsed : (h.splitChunk c r).1.kheapMemUsed = h.kheapMemUsed := rfl

theorem takeChunk_globals : (h.takeChunk n r).1.globals = h.globals := by
  have hpop := h.listPop_globals n
  unfold takeChunk
  rcases hp : h.listPop n with ⟨g, c⟩
  rw [hp] at hpop
  have hsplit := g.splitChunk_globals c r
  rcases hs : g.splitChunk c r with ⟨g', len⟩
  rw [hs] at hsplit
  simp only [hs]
  split_ifs
  · exact hsplit.trans hpop
  · exact hpop

end KHeap

/-! ## The blocks in memory -/

section Blocks

variable {lo hi : ℕ} {A : BlockHeap} {u v : List Blk} {b : Blk}

theorem addrs_split (lo hi : ℕ) (u v : List Blk) (b : Blk) :
    (chunks lo hi (u ++ b :: v)).map Blk.addr
      = (lo :: u.map Blk.addr) ++ b.addr :: (v.map Blk.addr ++ [hi - 20]) := by
  simp [chunks]

/-- The block after `b`, the last sentinel included, starts where `b` ends. -/
theorem next_addr (W : A.Wf lo hi) (hA : A.blks = u ++ b :: v) :
    ∃ V, v.map Blk.addr ++ [hi - 20] = (b.addr + 12 + b.size) :: V := by
  have h := W.tiles
  rw [hA, show u ++ b :: v = u ++ ([b] ++ v) from rfl, chunks_append] at h
  have h := (List.isChain_append.1 h).2.1
  rcases v with _ | ⟨d, v⟩
  · rw [List.singleton_append, List.nil_append, List.isChain_cons_cons] at h
    exact ⟨[], by simpa using h.1.symm⟩
  · rw [List.singleton_append, List.cons_append, List.isChain_cons_cons] at h
    exact ⟨v.map Blk.addr ++ [hi - 20], by simpa using h.1.symm⟩

theorem size_of_layout {m : Mem} {fc : ℕ → ℕ} {slots : ℕ → List ℕ} (Rg : Region lo hi)
    (W : A.Wf lo hi) (hA : A.blks = u ++ b :: v)
    (L : Layout m fc ((chunks lo hi A.blks).map Blk.addr) slots) :
    memoryChunkSize m b.addr = b.size := by
  obtain ⟨V, hV⟩ := next_addr W hA
  have hb := W.bounds (b := b) (by simp [hA])
  have := Rg.hi_lt
  rw [hA, addrs_split, hV] at L
  rw [L.memoryChunkSize_eq (by omega) (by omega)]
  omega

theorem slot_of_size (Rg : Region lo hi) (W : A.Wf lo hi) (hb : b ∈ A.blks) :
    (memoryChunkSlot b.size).toNat = Nat.log 2 b.size := by
  have h1 := W.bounds hb
  have h2 := W.fit b hb
  have := Rg.hi_lt
  rw [memoryChunkSlot_eq (by omega) (by omega), Int.toNat_natCast]

end Blocks

/-! ## `kmalloc` -/

namespace Rep

open BlockHeap

variable {lo hi : ℕ} {h : KHeap} {A : BlockHeap} {u v : List Blk} {b : Blk}

theorem addr_mem (hA : A.blks = u ++ b :: v) :
    b.addr ∈ (chunks lo hi A.blks).map Blk.addr := by
  rw [hA, addrs_split]
  simp

/-- The address of a block is that of no other chunk. -/
theorem chunk_addr_ne (R : Rep lo hi h A) (hA : A.blks = u ++ b :: v) {x : Blk}
    (hx : x ∈ ⟨lo, 8, true⟩ :: (u ++ (v ++ [⟨hi - 20, 8, true⟩]))) : x.addr ≠ b.addr := by
  have hnd := R.layout.nodup
  rw [hA, chunks, List.append_assoc, List.cons_append, ← List.cons_append, List.map_append,
    List.map_cons] at hnd
  have hp := (List.perm_middle.nodup_iff).1 hnd
  intro e
  refine (List.nodup_cons.1 hp).1 (e ▸ ?_)
  have := List.mem_map_of_mem (f := Blk.addr) hx
  simpa using this

/-- The first sentinel, the blocks before `b`, those after it and the last sentinel. -/
theorem mem_chunks_split {x : Blk} {k : List Blk} : x ∈ chunks lo hi (u ++ (k ++ v)) ↔
    x ∈ k ∨ x ∈ ⟨lo, 8, true⟩ :: (u ++ (v ++ [⟨hi - 20, 8, true⟩])) := by
  simp only [chunks, List.mem_cons, List.mem_append, List.not_mem_nil, or_false]
  tauto

/-- The flags of the chunks other than `b`. -/
theorem flags_other (R : Rep lo hi h A) (hA : A.blks = u ++ b :: v) :
    ∀ x ∈ ⟨lo, 8, true⟩ :: (u ++ (v ++ [⟨hi - 20, 8, true⟩])),
      h.mem (x.addr + 8) = if x.used then 1 else 0 := by
  intro x hx
  refine R.flags x ?_
  rw [hA, show u ++ b :: v = u ++ ([b] ++ v) from rfl, mem_chunks_split]
  exact .inr hx

/-- The split of a chunk: the layout with the rest of it inserted and pushed, what it leaves of
the other flags and payload words, and the size of the rest. -/
theorem splitChunk (R : Rep lo hi h A) (hA : A.blks = u ++ b :: v) {g : KHeap}
    {slots : ℕ → List ℕ} {r : ℕ} (hr : 8 ≤ r) (hr4 : r % 4 = 0) (hsz : r + 20 ≤ b.size)
    (L : Layout g.mem g.freeChunk ((chunks lo hi A.blks).map Blk.addr) slots)
    (hfree : ∀ n, b.addr ∉ slots n) :
    Layout (g.splitChunk b.addr r).1.mem (g.splitChunk b.addr r).1.freeChunk
        ((chunks lo hi (u ++ ⟨b.addr, r, true⟩ :: rest b r :: v)).map Blk.addr)
        (pushSlot slots (rest b r))
      ∧ (g.splitChunk b.addr r).1.mem ((rest b r).addr + 8) = 0
      ∧ (∀ a ∈ (chunks lo hi A.blks).map Blk.addr,
          (g.splitChunk b.addr r).1.mem (a + 8) = g.mem (a + 8))
      ∧ (g.splitChunk b.addr r).1.mem (b.addr + 12) = g.mem (b.addr + 12)
      ∧ (g.splitChunk b.addr r).2 = b.size - r - 12 := by
  obtain ⟨V, hV⟩ := next_addr R.wf hA
  have hbd := R.wf.bounds (b := b) (by simp [hA])
  have hlt := R.region.hi_lt
  have hd : ∀ a ∈ (lo :: u.map Blk.addr) ++ b.addr :: (v.map Blk.addr ++ [hi - 20]),
      a + 20 ≤ (rest b r).addr ∨ (rest b r).addr + 20 ≤ a := by
    have hpw := R.wf.pairwise
    rw [hA, show u ++ b :: v = u ++ ([b] ++ v) from rfl, chunks_append, List.singleton_append,
      List.pairwise_append] at hpw
    have hpr := List.pairwise_cons.1 hpw.2.1
    intro a ha
    have hfit := R.wf.fit
    simp only [List.mem_append, List.mem_cons, List.not_mem_nil, or_false, List.mem_map] at ha
    simp only [rest]
    rcases ha with (rfl | ⟨x, hx, rfl⟩) | rfl | ⟨x, hx, rfl⟩ | rfl
    · omega
    · have h1 := hpw.2.2 x (List.mem_cons_of_mem _ hx) b (by simp)
      have h2 := hfit x (by simp [hA, hx])
      omega
    · omega
    · have h1 := hpr.1 x (List.mem_append_left _ hx)
      omega
    · have h1 := hpr.1 _ (List.mem_append_right _ List.mem_cons_self)
      simp only [] at h1
      omega
  have hL := L
  rw [hA, addrs_split] at hL
  obtain ⟨h1, h2, h3, h4⟩ := hL.insertChunk hd
  have hc2 : add32 (add32 b.addr 12) r = (rest b r).addr := by
    have e1 : add32 b.addr 12 = b.addr + 12 := add32_of_lt (by omega)
    rw [e1, add32_of_lt (by omega)]
    rfl
  set m := insertAfter (memoryChunkInit g.mem (rest b r).addr) b.addr (rest b r).addr with hm
  have hlen : memoryChunkSize m (rest b r).addr = (rest b r).size := by
    have hL' : Layout m g.freeChunk ((lo :: u.map Blk.addr ++ [b.addr]) ++
        (rest b r).addr :: (b.addr + 12 + b.size) :: V) slots := by
      rw [hV] at h1
      simpa using h1
    rw [hL'.memoryChunkSize_eq (by simp only [rest]; omega) (by omega)]
    simp only [rest]
    omega
  have hslot : (memoryChunkSlot (rest b r).size).toNat = Nat.log 2 (rest b r).size := by
    rw [memoryChunkSlot_eq (by simp only [rest]; omega) (by simp only [rest]; omega),
      Int.toNat_natCast]
  have hnot : ∀ n, (rest b r).addr ∉ slots n := by
    intro n hn
    have := hd _ (by have := L.sub n _ hn; rwa [hA, addrs_split] at this)
    omega
  have hmem2 : (rest b r).addr ∈ (lo :: u.map Blk.addr) ++
      b.addr :: (rest b r).addr :: (v.map Blk.addr ++ [hi - 20]) := by simp
  obtain ⟨k1, k2, k3⟩ := Layout.listPush (h := { g with mem := m })
    (n := Nat.log 2 (rest b r).size) h1 hmem2 (by simp only [rest]; omega) hnot h3
  have heq : g.splitChunk b.addr r =
      ({ ({ g with mem := m } : KHeap).listPush (Nat.log 2 (rest b r).size) (rest b r).addr with
          memMeta := add32 (({ g with mem := m } : KHeap).listPush
            (Nat.log 2 (rest b r).size) (rest b r).addr).memMeta 12
          memFree := add32 (({ g with mem := m } : KHeap).listPush
            (Nat.log 2 (rest b r).size) (rest b r).addr).memFree (sub32 (rest b r).size 12) },
        (rest b r).size) := by
    simp only [KHeap.splitChunk, headerSize, hc2, ← hm, hlen, hslot]
  rw [heq]
  refine ⟨?_, ?_, fun a ha => ?_, ?_, rfl⟩
  · have e : (chunks lo hi (u ++ ⟨b.addr, r, true⟩ :: rest b r :: v)).map Blk.addr
        = (lo :: u.map Blk.addr) ++ b.addr :: (rest b r).addr :: (v.map Blk.addr ++ [hi - 20]) := by
      simp [chunks]
    rw [e]
    exact k1
  · exact (k2 _ hmem2).trans h2
  · rw [hA, addrs_split] at ha
    refine (k2 a ?_).trans (h4 a ha 8 (by simp))
    simp only [List.mem_append, List.mem_cons] at ha ⊢
    exact ha.imp id (Or.imp id Or.inr)
  · have hbm : b.addr ∈ (lo :: u.map Blk.addr) ++ b.addr :: (v.map Blk.addr ++ [hi - 20]) := by
      simp
    rw [← h4 b.addr hbm 12 (by simp)]
    dsimp only
    refine k3 (b.addr + 12) ?_
    have hsub : ∀ a ∈ (rest b r).addr :: slots (Nat.log 2 (rest b r).size), a ∈
        (lo :: u.map Blk.addr) ++ b.addr :: (rest b r).addr :: (v.map Blk.addr ++ [hi - 20]) := by
      intro a ha
      rcases List.mem_cons.1 ha with rfl | ha
      · exact hmem2
      · exact h1.sub _ a ha
    refine h1.sep.free_free (l := [b.addr]) ?_ hsub (fun a ha => ?_) (.inl (by simp))
    · intro a ha
      rw [List.mem_singleton.1 ha]
      simp
    · rw [List.mem_singleton.1 ha, List.mem_cons, not_or]
      refine ⟨?_, hfree _⟩
      simp only [rest]
      omega

/-- `kmalloc` at a slot whose first chunk is `b`: it cuts `r` bytes from it, counts them used, or
twelve fewer than the chunk has when it takes the whole of it, and returns its payload. -/
theorem takeChunk (R : Rep lo hi h A) (hA : A.blks = u ++ b :: v) (hb : b.used = false)
    {n : ℕ} {l : List ℕ} (hn : A.slots n = b.addr :: l) {r : ℕ} (hr : 8 ≤ r) (hr4 : r % 4 = 0)
    (hfit : r ≤ b.size) :
    Rep lo hi (h.takeChunk n r).1 (carve (Function.update A.slots n l) u b v r)
      ∧ (h.takeChunk n r).2 = b.addr + 12
      ∧ (h.takeChunk n r).1.kheapMemUsed
        = add32 h.kheapMemUsed (if r + 20 ≤ b.size then r else sub32 b.size 12) := by
  have hbd := R.wf.bounds (b := b) (by simp [hA])
  have hlt := R.region.hi_lt
  have hlog : Nat.log 2 b.size = n := by
    obtain ⟨b', hb', h1, -, h3⟩ := (R.wf.mem_slots n b.addr).1 (by simp [hn])
    obtain rfl : b' = b := by
      rw [hA] at hb'
      by_contra hne
      refine R.wf.addr_ne hA b' ?_ h1
      simp only [List.mem_append, List.mem_cons] at hb' ⊢
      tauto
    exact h3
  obtain ⟨L, hflag, hchunk, hself⟩ := R.layout.listPop hn
  set g := (h.listPop n).1 with hg
  have hsize : memoryChunkSize g.mem b.addr = b.size := size_of_layout R.region R.wf hA L
  have hwf := carve_wf (r := r) R.wf hA hb hr hr4
  rw [← eraseSlot_head hn hlog] at hwf
  have hused : g.kheapMemUsed = h.kheapMemUsed := rfl
  have hbfree : ∀ n', b.addr ∉ Function.update A.slots n l n' := by
    intro n' hn'
    have hnd := R.wf.nodup n
    rw [hn] at hnd
    by_cases e : n' = n
    · subst e
      rw [Function.update_self] at hn'
      exact (List.nodup_cons.1 hnd).1 hn'
    · rw [Function.update_of_ne e] at hn'
      exact e (R.layout.disj n' n b.addr hn' (by simp [hn]))
  have hadd : add32 r 20 = r + 20 := add32_of_lt (by omega)
  have hother := R.flags_other hA
  have hflag8 : ∀ x ∈ ⟨lo, 8, true⟩ :: (u ++ (v ++ [⟨hi - 20, 8, true⟩])),
      x.addr + 8 ≠ b.addr + 8 := fun x hx e =>
    R.chunk_addr_ne hA hx (Nat.add_right_cancel e)
  have hin : ∀ x ∈ ⟨lo, 8, true⟩ :: (u ++ (v ++ [⟨hi - 20, 8, true⟩])),
      x.addr ∈ (chunks lo hi A.blks).map Blk.addr := by
    intro x hx
    rw [hA, show u ++ b :: v = u ++ ([b] ++ v) from rfl]
    exact List.mem_map_of_mem (mem_chunks_split.2 (.inr hx))
  have hglob := h.takeChunk_globals n r
  rw [R.globals] at hglob
  unfold KHeap.takeChunk at hglob ⊢
  simp only [← hg, hchunk, hsize, sizeofMemChunk, hadd, headerSize] at hglob ⊢
  by_cases hsz : r + 20 ≤ b.size
  · obtain ⟨k1, k2, k3, k4, k5⟩ := R.splitChunk hA hr hr4 hsz L hbfree
    have hu : (g.splitChunk b.addr r).1.kheapMemUsed = h.kheapMemUsed :=
      KHeap.splitChunk_kheapMemUsed g _ _
    rw [carve, if_pos hsz] at hwf ⊢
    simp only [hsz, if_true, k5, hu] at hglob ⊢
    have e : sub32 (sub32 b.size (b.size - r - 12)) 12 = r := by
      have e1 : sub32 b.size (b.size - r - 12) = r + 12 := by
        rw [sub32_of_le (by omega) (by omega)]
        omega
      rw [e1, sub32_of_le (by omega) (by omega)]
      omega
    have hb8 : b.addr ∈ (chunks lo hi (u ++ ⟨b.addr, r, true⟩ :: rest b r :: v)).map Blk.addr := by
      simp [chunks]
    refine ⟨⟨R.region, hglob, hwf, k1.setFlag hb8 1, fun x hx => ?_⟩, ?_,
      by rw [e]⟩
    · rw [show u ++ ⟨b.addr, r, true⟩ :: rest b r :: v
        = u ++ ([⟨b.addr, r, true⟩, rest b r] ++ v) from rfl, mem_chunks_split] at hx
      simp only [List.mem_cons, List.not_mem_nil, or_false] at hx
      rcases hx with (rfl | rfl) | hx
      · exact Mem.set_self _ _ _
      · refine (Mem.set_of_ne _ _ ?_).trans k2
        simp only [rest]
        omega
      · have hx' : x ∈ ⟨lo, 8, true⟩ :: (u ++ (v ++ [⟨hi - 20, 8, true⟩])) := by simpa using hx
        exact (Mem.set_of_ne _ _ (hflag8 x hx')).trans
          ((k3 _ (hin x hx')).trans ((hflag _ (hin x hx')).trans (hother x hx')))
    · rw [Mem.set_of_ne _ _ (by omega), k4]
      exact (Ring.singleton_iff.1 hself).1
  · rw [carve, if_neg hsz] at hwf ⊢
    have e0 : sub32 b.size 0 = b.size := sub32_of_le (by omega) (by omega)
    simp only [hsz, if_false, hused, e0] at hglob ⊢
    have hadr : (chunks lo hi (u ++ { b with used := true } :: v)).map Blk.addr
        = (chunks lo hi A.blks).map Blk.addr := by rw [hA]; simp [chunks]
    refine ⟨⟨R.region, hglob, hwf, ?_, fun x hx => ?_⟩, ?_, trivial⟩
    · rw [hadr]
      exact L.setFlag (addr_mem hA) 1
    · rw [show u ++ { b with used := true } :: v = u ++ ([{ b with used := true }] ++ v) from rfl,
        mem_chunks_split] at hx
      rcases hx with hx | hx
      · rw [List.mem_singleton.1 hx]
        exact Mem.set_self _ _ _
      · exact (Mem.set_of_ne _ _ (hflag8 x hx)).trans
          ((hflag _ (hin x hx)).trans (hother x hx))
    · rw [Mem.set_of_ne _ _ (by omega)]
      exact (Ring.singleton_iff.1 hself).1

/-- What the search of `kmalloc` finds: nothing, or the first free block of a slot that fits. -/
theorem findSlot_cases (R : Rep lo hi h A) (size : ℕ) :
    KHeap.findSlot h.freeChunk (KHeap.roundSize size) = none ∨
      ∃ n l u b v, KHeap.findSlot h.freeChunk (KHeap.roundSize size) = some n
        ∧ A.slots n = b.addr :: l ∧ A.blks = u ++ b :: v ∧ b.used = false
        ∧ KHeap.roundSize size ≤ b.size := by
  obtain ⟨hr, hr4, hr'⟩ := KHeap.roundSize_spec size
  rcases hn : KHeap.findSlot h.freeChunk (KHeap.roundSize size) with _ | n
  · exact .inl rfl
  · obtain ⟨h1, -, h3⟩ := KHeap.findSlot_some hr hr' hn
    rw [R.layout.heads] at h1
    rcases hs : A.slots n with _ | ⟨c, l⟩
    · simp [hs] at h1
    · obtain ⟨b, hb, rfl, hused, hlog⟩ := (R.wf.mem_slots n c).1 (by simp [hs])
      obtain ⟨u, v, huv⟩ := List.append_of_mem hb
      exact .inr ⟨n, l, u, b, v, rfl, hs, huv, hused, h3 _ hlog⟩

theorem kmalloc_cases (R : Rep lo hi h A) (size : ℕ) :
    (KHeap.findSlot h.freeChunk (KHeap.roundSize size) = none ∧ A.alloc size = none
        ∧ h.kmalloc size = (h, 0)) ∨
      ∃ n l u b v, A.blks = u ++ b :: v ∧ b.used = false ∧ KHeap.roundSize size ≤ b.size
        ∧ KHeap.findSlot h.freeChunk (KHeap.roundSize size) = some n ∧ A.slots n = b.addr :: l
        ∧ A.alloc size = some (carve (Function.update A.slots n l) u b v (KHeap.roundSize size),
            b.addr + 12)
        ∧ Rep lo hi (h.kmalloc size).1
            (carve (Function.update A.slots n l) u b v (KHeap.roundSize size))
        ∧ (h.kmalloc size).2 = b.addr + 12
        ∧ (h.kmalloc size).1.kheapMemUsed = add32 h.kheapMemUsed
            (if KHeap.roundSize size + 20 ≤ b.size then KHeap.roundSize size
              else sub32 b.size 12) := by
  have hinit : h.init ≠ 0 := by
    have : h.init = 1 := congrArg Prod.fst R.globals
    omega
  have hfc : (fun n => (A.slots n).headD 0) = h.freeChunk := funext fun n => (R.layout.heads n).symm
  obtain ⟨hr, hr4, -⟩ := KHeap.roundSize_spec size
  rcases R.findSlot_cases size with hn | ⟨n, l, u, b, v, hn, hs, hA, hb, hfit⟩
  · exact .inl ⟨hn, alloc_of_none (hfc ▸ hn), h.kmalloc_of_none hinit hn⟩
  · have htake := R.takeChunk hA hb hs hr hr4 hfit
    rw [← h.kmalloc_of_some hinit hn] at htake
    exact .inr ⟨n, l, u, b, v, hA, hb, hfit, hn, hs, alloc_of_some R.wf (hfc ▸ hn) hs hA, htake⟩

end Rep

end RTLKIM

import RTLKIM.Proofs.KHeapShape

/-!
# When `kmalloc` finds no chunk

The search starts at the slot of the least power of two that holds the size, and a slot holds the
free chunks from its power of two to the next. So it fails just when no free chunk has the size of
that power, and what it finds is large enough.
-/

namespace RTLKIM

namespace KHeap

theorem roundSize_eq_rounded {size : ℕ} (h : size + 3 < 2 ^ 32) : roundSize size = rounded size := by
  rw [roundSize_eq, add32_of_lt h]
  simp only [rounded, alignDown, align, minSize]
  split_ifs with h8
  · rw [max_eq_right h8.le]
  · rw [max_eq_left (Nat.le_of_not_lt h8)]

/-- The search starts at the logarithm, rounded up. -/
theorem startSlot_eq_clog {r : ℕ} (hr : 8 ≤ r) (hr' : r < 2 ^ 32) : startSlot r = Nat.clog 2 r := by
  rw [startSlot_eq hr hr']
  refine eq_of_forall_ge_iff fun k => ?_
  rw [Nat.clog_le_iff_le_pow (by decide), Nat.succ_le_iff, Nat.log_lt_iff_lt_pow (by decide)
    (by omega)]
  omega

theorem searchSlot_eq_none_iff {fc : ℕ → ℕ} {k n : ℕ} :
    searchSlot fc k n = none ↔ ∀ i, n ≤ i → i < n + k → fc i = 0 := by
  refine ⟨searchSlot_none, fun h => ?_⟩
  by_contra hne
  obtain ⟨i, hi⟩ := Option.ne_none_iff_exists'.1 hne
  obtain ⟨h1, h2, h3⟩ := searchSlot_some hi
  exact h3 (h i h1 h2)

theorem findSlot_eq_none_iff {fc : ℕ → ℕ} {r : ℕ} (hr : 8 ≤ r) (hr' : r < 2 ^ 32) :
    findSlot fc r = none ↔ numSizes ≤ Nat.clog 2 r
      ∨ ∀ i, Nat.clog 2 r ≤ i → i < numSizes → fc i = 0 := by
  unfold findSlot
  simp only [startSlot_eq_clog hr hr']
  split_ifs with hn
  · simp [hn]
  · rw [searchSlot_eq_none_iff, Nat.add_sub_cancel' (Nat.le_of_not_le hn), or_iff_right hn]

end KHeap

namespace Rep

variable {lo hi : ℕ} {h : KHeap} {A : BlockHeap}

/-- The slots from `k` on are empty just when no free chunk has `2 ^ k` bytes. -/
theorem slots_empty_iff (R : Rep lo hi h A) {k : ℕ} (hk : 0 < k) :
    (∀ i, k ≤ i → i < numSizes → h.freeChunk i = 0)
      ↔ ∀ c ∈ h.chunkList, h.isUsed c = false → memoryChunkSize h.mem c < 2 ^ k := by
  constructor
  · intro hempty c hc hu
    by_contra hge
    set i := Nat.log 2 (memoryChunkSize h.mem c) with hi
    have hslot := (R.mem_free_iff i c).2 ⟨hc, hu, rfl⟩
    have hki : k ≤ i := Nat.le_log_of_pow_le (by decide) (Nat.le_of_not_lt hge)
    obtain ⟨b, hb, -, -, hlog⟩ := (R.wf.mem_slots i c).1 hslot
    have hbd := R.wf.bounds hb
    have hlt := R.region.hi_lt
    have hi32 : i < numSizes := by
      rw [← hlog]
      exact Nat.log_lt_of_lt_pow (by have := (R.wf.fit b hb).1; omega) (by
        show b.size < 2 ^ 32
        omega)
    have hhead := hempty i hki hi32
    rw [R.layout.heads] at hhead
    rcases hs : A.slots i with _ | ⟨d, l⟩
    · rw [hs] at hslot
      cases hslot
    · rw [hs] at hhead
      exact R.layout.pos i d (by rw [hs]; simp) hhead
  · intro hsmall i hki hi32
    rw [R.layout.heads]
    rcases hs : A.slots i with _ | ⟨c, l⟩
    · rfl
    · obtain ⟨hc, hu, hlog⟩ := (R.mem_free_iff i c).1 (by rw [hs]; simp)
      have hlt := hsmall c hc hu
      have : Nat.log 2 (memoryChunkSize h.mem c) < k := Nat.log_lt_of_lt_pow' hk.ne' hlt
      omega

/-- The chunk popped has the size that the search was for. -/
theorem popped_size (R : Rep lo hi h A) {size n : ℕ}
    (hn : KHeap.findSlot h.freeChunk (KHeap.roundSize size) = some n) :
    KHeap.roundSize size ≤ memoryChunkSize (h.listPop n).1.mem (h.listPop n).2 := by
  rcases R.findSlot_cases size with hnone | ⟨n', l, u, b, v, hn', hs, hA, -, hfit⟩
  · rw [hnone] at hn
    cases hn
  obtain rfl : n' = n := Option.some_inj.1 (hn'.symm.trans hn)
  obtain ⟨L, -, hchunk, -⟩ := R.layout.listPop hs
  rw [hchunk, size_of_layout R.region R.wf hA L]
  exact hfit

end Rep

/-- A size whose rounding does not wrap is refused just when no free chunk has as many bytes as the
least power of two that holds it, or that power is past the slots; the heap is then as it was.
Otherwise the chunk popped has the size. -/
theorem kmalloc_fails_iff {start stop : ℕ} {m : Mem} {ops : List HeapOp} {s : HeapSys}
    (hr : KHeap.HeapRoom start stop) (h : (HeapSys.fresh start stop m).run ops = some s) {size : ℕ}
    (hsize : size + (align - 1) < 2 ^ 32) :
    ((s.heap.kmalloc size).2 = 0 ↔
        (∀ c ∈ s.heap.chunkList, s.heap.isUsed c = false →
          memoryChunkSize s.heap.mem c < 2 ^ Nat.clog 2 (KHeap.rounded size))
        ∨ 2 ^ numSizes ≤ 2 ^ Nat.clog 2 (KHeap.rounded size))
      ∧ ((s.heap.kmalloc size).2 = 0 → (s.heap.kmalloc size).1 = s.heap)
      ∧ ((s.heap.kmalloc size).2 ≠ 0 → ∃ n,
        KHeap.findSlot s.heap.freeChunk (KHeap.roundSize size) = some n
        ∧ s.heap.kmalloc size = s.heap.takeChunk n (KHeap.roundSize size)
        ∧ KHeap.rounded size ≤ memoryChunkSize (s.heap.listPop n).1.mem (s.heap.listPop n).2) := by
  have R := ((fresh_inv m hr).run h).rep
  obtain ⟨h8, -, h32⟩ := KHeap.roundSize_spec size
  have hround : KHeap.roundSize size = KHeap.rounded size := KHeap.roundSize_eq_rounded hsize
  have hinit : s.heap.init ≠ 0 := by
    have : s.heap.init = 1 := congrArg Prod.fst R.globals
    omega
  have hnone : (s.heap.kmalloc size).2 = 0
      ↔ KHeap.findSlot s.heap.freeChunk (KHeap.roundSize size) = none := by
    rcases R.kmalloc_cases size with ⟨h1, -, h2⟩ | ⟨n, l, u, b, v, -, -, -, h1, -, -, -, h2, -⟩
    · simp [h1, h2]
    · simp [h1, h2]
  refine ⟨?_, fun h0 => ?_, fun h0 => ?_⟩
  · have hk : 0 < Nat.clog 2 (KHeap.roundSize size) := Nat.clog_pos (by decide) (by omega)
    rw [hnone, KHeap.findSlot_eq_none_iff h8 h32, R.slots_empty_iff hk, hround, or_comm,
      Nat.pow_le_pow_iff_right (by decide)]
  · rw [s.heap.kmalloc_of_none hinit (hnone.1 h0)]
  · obtain ⟨n, hn⟩ := Option.ne_none_iff_exists'.1 (mt hnone.2 h0)
    refine ⟨n, hn, s.heap.kmalloc_of_some hinit hn, ?_⟩
    rw [← hround]
    exact R.popped_size hn

/-- Asked for 72 bytes, a heap with a free chunk of 108 finds nothing in the slots from 128 on. -/
theorem kmalloc_fails_between : ∃ s, (HeapSys.fresh 4 164 fun _ => 7).run [] = some s
    ∧ (s.heap.kmalloc 72).2 = 0 := by
  have hroom : KHeap.HeapRoom 4 164 := by decide +kernel
  have hrun : (HeapSys.fresh 4 164 fun _ => 7).run [] = some (HeapSys.fresh 4 164 fun _ => 7) := rfl
  refine ⟨_, hrun, (kmalloc_fails_iff hroom hrun (by decide)).1.2 (.inl ?_)⟩
  decide +kernel

end RTLKIM

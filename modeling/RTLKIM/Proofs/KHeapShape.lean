import RTLKIM.Proofs.KHeapRun
import Mathlib.Data.Finset.Card
import Mathlib.Order.Interval.Finset.Nat

/-!
# The shape of the heap in memory

What `Rep` says of the blocks, read off the memory: the walk from `first_chunk` meets the blocks in
order, `used` words and sizes are theirs, so every heap a run reaches has the shape asked of it,
and `kmalloc` hands out bytes that nothing else holds.
-/

namespace RTLKIM

open BlockHeap

/-- The walk meets the chunks of a list linked up to `last`. -/
theorem walkChunks_eq {m : Mem} {last : ℕ} : ∀ {fuel c : ℕ} {t : List ℕ},
    (c :: t).length ≤ fuel → List.IsChain (fun a b => m a = b) (c :: t) →
    (c :: t).getLast? = some last → (c :: t).Nodup → walkChunks m last fuel c = c :: t
  | 0, c, t, hlen, _, _, _ => by simp at hlen
  | fuel + 1, c, [], _, _, hl, _ => by
    simp only [List.getLast?_singleton, Option.some.injEq] at hl
    simp [walkChunks, hl]
  | fuel + 1, c, d :: t, hlen, hc, hl, hnd => by
    rw [List.isChain_cons_cons] at hc
    have hl' : (d :: t).getLast? = some last := by rwa [List.getLast?_cons_cons] at hl
    have hne : c ≠ last := by
      rintro rfl
      exact (List.nodup_cons.1 hnd).1 (List.mem_of_getLast? hl')
    have hlen' : (d :: t).length ≤ fuel := by simpa using hlen
    have ih := walkChunks_eq hlen' hc.2 hl' (List.nodup_cons.1 hnd).2
    rw [walkChunks, if_neg hne, hc.1, ih]

/-- A byte between the first block and the end of the last is in one of them. -/
theorem exists_block_of_chain {z : Blk} : ∀ {b : Blk} {l : List Blk}, List.IsChain Adj (b :: l) →
    (b :: l).getLast? = some z → ∀ x, b.addr ≤ x → x < z.addr + 12 + z.size →
    ∃ c ∈ b :: l, c.addr ≤ x ∧ x < c.addr + 12 + c.size
  | b, [], _, hz, x, h1, h2 => by
    simp only [List.getLast?_singleton, Option.some.injEq] at hz
    subst hz
    exact ⟨b, List.mem_cons_self, h1, h2⟩
  | b, d :: l, hc, hz, x, h1, h2 => by
    rw [List.isChain_cons_cons] at hc
    by_cases hx : x < b.addr + 12 + b.size
    · exact ⟨b, List.mem_cons_self, h1, hx⟩
    · rw [List.getLast?_cons_cons] at hz
      have hadj : b.addr + 12 + b.size = d.addr := hc.1
      obtain ⟨c, hc', h3⟩ := exists_block_of_chain hc.2 hz x (by omega) h2
      exact ⟨c, List.mem_cons_of_mem _ hc', h3⟩

theorem chunks_getLast? (lo hi : ℕ) (l : List Blk) :
    (chunks lo hi l).getLast? = some ⟨hi - 20, 8, true⟩ := by
  rw [chunks, ← List.cons_append, List.getLast?_concat]

namespace Rep

variable {lo hi : ℕ} {h : KHeap} {A : BlockHeap} (R : Rep lo hi h A)

include R

theorem firstChunk_eq : h.firstChunk = lo := congrArg (fun g => g.2.1) R.globals

theorem lastChunk_eq : h.lastChunk = hi - 20 := congrArg (fun g => g.2.2) R.globals

theorem addrs_sorted : ((chunks lo hi A.blks).map Blk.addr).Pairwise (· < ·) := by
  rw [List.pairwise_map]
  exact R.wf.pairwise.imp fun hab => by omega

theorem chunk_bounds {x : Blk} (hx : x ∈ chunks lo hi A.blks) :
    lo ≤ x.addr ∧ x.addr + 12 + x.size ≤ hi ∧ (x.addr ≠ hi - 20 → x.addr + 12 + x.size ≤ hi - 20) := by
  have hroom := R.region.room
  simp only [chunks, List.mem_cons, List.mem_append, List.not_mem_nil, or_false] at hx
  rcases hx with rfl | hx | rfl
  · exact ⟨le_rfl, by show lo + 12 + 8 ≤ hi; omega, fun _ => by show lo + 12 + 8 ≤ hi - 20; omega⟩
  · have := R.wf.bounds hx
    omega
  · exact ⟨by show lo ≤ hi - 20; omega, by show hi - 20 + 12 + 8 ≤ hi; omega, fun h => absurd rfl h⟩

theorem chunkList_eq : h.chunkList = (chunks lo hi A.blks).map Blk.addr := by
  have hnd := R.layout.nodup
  have hr := R.layout.ring
  have hlen : ((chunks lo hi A.blks).map Blk.addr).length ≤ hi - 20 - lo + 1 := by
    rw [← List.toFinset_card_of_nodup hnd]
    refine (Finset.card_le_card (t := Finset.Icc lo (hi - 20)) fun x hx => ?_).trans ?_
    · rw [List.mem_toFinset, List.mem_map] at hx
      obtain ⟨c, hc, rfl⟩ := hx
      have := R.chunk_bounds hc
      rw [Finset.mem_Icc]
      omega
    · rw [Nat.card_Icc]
      have := R.region.room
      omega
  have hlast : ((chunks lo hi A.blks).map Blk.addr).getLast? = some (hi - 20) := by
    rw [List.getLast?_map, chunks_getLast?]
    rfl
  have hchain : List.IsChain (fun a b => h.mem a = b) ((chunks lo hi A.blks).map Blk.addr) := by
    rw [chunks, List.map_cons, Ring.cons_iff, ← List.cons_append] at hr
    exact (List.isChain_append.1 hr).1.imp fun _ _ hab => hab.1
  unfold KHeap.chunkList
  rw [R.firstChunk_eq, R.lastChunk_eq]
  exact walkChunks_eq hlen hchain hlast hnd

theorem mem_chunkList {c : ℕ} : c ∈ h.chunkList ↔ ∃ x ∈ chunks lo hi A.blks, x.addr = c := by
  rw [R.chunkList_eq, List.mem_map]

theorem isUsed_eq {x : Blk} (hx : x ∈ chunks lo hi A.blks) : h.isUsed x.addr = x.used := by
  unfold KHeap.isUsed
  rw [R.flags x hx]
  cases x.used <;> rfl

/-- The link and the size of a chunk other than the last sentinel. -/
theorem next_of_chunk {x : Blk} (hx : x ∈ chunks lo hi A.blks) (hne : x.addr ≠ hi - 20) :
    h.mem x.addr = x.addr + 12 + x.size ∧ memoryChunkSize h.mem x.addr = x.size := by
  obtain ⟨U, V, hUV⟩ := List.append_of_mem hx
  rcases V with _ | ⟨y, V⟩
  · have hl := chunks_getLast? lo hi A.blks
    rw [hUV, List.getLast?_concat] at hl
    cases hl
    exact absurd rfl hne
  · have htile := R.wf.tiles
    rw [hUV, List.isChain_append] at htile
    have hadj : x.addr + 12 + x.size = y.addr := (List.isChain_cons_cons.1 htile.2.1).1
    have hL := R.layout
    rw [hUV, List.map_append, List.map_cons, List.map_cons] at hL
    have hb := R.chunk_bounds hx
    have hlt := R.region.hi_lt
    refine ⟨(Ring.link_of_split hL.ring).1.trans hadj.symm, ?_⟩
    rw [hL.memoryChunkSize_eq (by omega) (by omega)]
    omega

/-- Two chunks are apart or the same. -/
theorem chunks_apart {x y : Blk} (hx : x ∈ chunks lo hi A.blks) (hy : y ∈ chunks lo hi A.blks) :
    x.addr + 12 + x.size ≤ y.addr ∨ y.addr + 12 + y.size ≤ x.addr ∨ x = y := by
  have hpw := R.wf.pairwise
  have hl : (chunks lo hi A.blks).Pairwise fun a b : Blk =>
      a.addr + 12 + a.size ≤ b.addr ∨ b.addr + 12 + b.size ≤ a.addr ∨ a = b :=
    hpw.imp fun hab => .inl hab
  have hr : (chunks lo hi A.blks).Pairwise (flip fun a b : Blk =>
      a.addr + 12 + a.size ≤ b.addr ∨ b.addr + 12 + b.size ≤ a.addr ∨ a = b) :=
    hpw.imp fun hab => .inr (.inl hab)
  exact List.Pairwise.forall_of_forall_of_flip (fun a _ => .inr (.inr rfl)) hl hr hx hy

theorem extent_eq {x : Blk} (hx : x ∈ chunks lo hi A.blks) : h.extent x.addr = 12 + x.size := by
  unfold KHeap.extent
  rw [R.lastChunk_eq]
  by_cases hne : x.addr = hi - 20
  · have hl : (⟨hi - 20, 8, true⟩ : Blk) ∈ chunks lo hi A.blks := by simp [chunks]
    have hx8 : x = ⟨hi - 20, 8, true⟩ := by
      rcases R.chunks_apart hx hl with h1 | h1 | h1
      · simp only [] at h1
        omega
      · simp only [] at h1
        omega
      · exact h1
    rw [if_pos hne, hx8]
    rfl
  · rw [if_neg hne, (R.next_of_chunk hx hne).2]

theorem used_of_adj : List.IsChain (fun a b => h.isUsed a ∨ h.isUsed b) h.chunkList := by
  have hco : List.IsChain (fun a b : Blk => a.used = true ∨ b.used = true)
      (chunks lo hi A.blks) := by
    rw [chunks, List.isChain_cons, List.isChain_append]
    exact ⟨fun _ _ => .inl rfl, R.wf.coalesced, by simp, by simp⟩
  rw [R.chunkList_eq, List.isChain_map]
  refine (List.isChain_iff_forall_rel_of_append_cons_cons.2 ?_)
  intro a b l₁ l₂ hl
  rw [R.isUsed_eq (x := a) (by rw [hl]; simp), R.isUsed_eq (x := b) (by rw [hl]; simp)]
  exact List.isChain_iff_forall_rel_of_append_cons_cons.1 hco hl

theorem mem_free_iff (n c : ℕ) : c ∈ A.slots n ↔
    c ∈ h.chunkList ∧ h.isUsed c = false ∧ n = Nat.log 2 (memoryChunkSize h.mem c) := by
  rw [R.wf.mem_slots, R.mem_chunkList]
  constructor
  · rintro ⟨b, hb, rfl, hu, rfl⟩
    have hb' : b ∈ chunks lo hi A.blks := by simp [chunks, hb]
    have hbd := R.wf.bounds hb
    refine ⟨⟨b, hb', rfl⟩, (R.isUsed_eq hb').trans hu, ?_⟩
    rw [(R.next_of_chunk hb' (by omega)).2]
  · rintro ⟨⟨b, hb, rfl⟩, hu, rfl⟩
    rw [R.isUsed_eq hb] at hu
    have hb' : b ∈ A.blks := by
      simp only [chunks, List.mem_cons, List.mem_append, List.not_mem_nil, or_false] at hb
      rcases hb with rfl | hb | rfl
      · cases hu
      · exact hb
      · cases hu
    have hbd := R.wf.bounds hb'
    exact ⟨b, hb', rfl, hu, by rw [(R.next_of_chunk hb (by omega)).2]⟩

theorem exists_unique_chunk {x : ℕ} (h1 : lo ≤ x) (h2 : x < hi) :
    ∃! c, c ∈ h.chunkList ∧ c ≤ x ∧ x < c + h.extent c := by
  have hroom := R.region.room
  have hz : x < (⟨hi - 20, 8, true⟩ : Blk).addr + 12 + (⟨hi - 20, 8, true⟩ : Blk).size := by
    show x < hi - 20 + 12 + 8
    omega
  obtain ⟨b, hb, h3, h4⟩ := exists_block_of_chain R.wf.tiles (chunks_getLast? lo hi A.blks) x h1 hz
  refine ⟨b.addr, ⟨R.mem_chunkList.2 ⟨b, hb, rfl⟩, h3, ?_⟩, fun c hc => ?_⟩
  · rw [R.extent_eq hb]
    omega
  · obtain ⟨hc, h5, h6⟩ := hc
    obtain ⟨d, hd, rfl⟩ := R.mem_chunkList.1 hc
    rw [R.extent_eq hd] at h6
    rcases R.chunks_apart hb hd with h7 | h7 | rfl
    · omega
    · omega
    · rfl

theorem chunk_room {x : Blk} (hx : x ∈ chunks lo hi A.blks) : 8 ≤ x.size ∧ x.addr % 4 = 0 := by
  have h1 := R.region.lo_aligned
  have h2 := R.region.hi_aligned
  have h3 := R.region.room
  simp only [chunks, List.mem_cons, List.mem_append, List.not_mem_nil, or_false] at hx
  rcases hx with rfl | hx | rfl
  · exact ⟨le_rfl, h1⟩
  · exact R.wf.fit x hx
  · exact ⟨le_rfl, by show (hi - 20) % 4 = 0; omega⟩

theorem shape : h.Shape lo hi A.slots := by
  have hroom := R.region.room
  refine ⟨⟨R.firstChunk_eq, ?_⟩, ⟨?_, ?_⟩, ?_, ?_, fun c hc => ?_, fun x => R.exists_unique_chunk,
    ⟨?_, ?_⟩, R.used_of_adj, R.layout.heads, R.layout.rings, R.layout.nodup_slots,
    R.mem_free_iff⟩
  · rw [R.chunkList_eq, R.firstChunk_eq]
    rfl
  · rw [R.lastChunk_eq]
    simp only [sizeofMemChunk]
    omega
  · rw [R.chunkList_eq, R.lastChunk_eq, List.getLast?_map, chunks_getLast?]
    rfl
  · rw [R.chunkList_eq]
    exact R.layout.ring
  · rw [R.chunkList_eq]
    exact R.addrs_sorted
  · obtain ⟨x, hx, rfl⟩ := R.mem_chunkList.1 hc
    have := R.chunk_room hx
    rw [R.extent_eq hx]
    simp only [sizeofMemChunk, align]
    omega
  · rw [R.firstChunk_eq]
    exact R.isUsed_eq (x := ⟨lo, 8, true⟩) (by simp [chunks])
  · rw [R.lastChunk_eq]
    exact R.isUsed_eq (x := ⟨hi - 20, 8, true⟩) (by simp [chunks])

end Rep

/-! ## Every run -/

/-- Every heap a run reaches has the shape asked of it. -/
theorem run_shape {start stop : ℕ} {m : Mem} {ops : List HeapOp} {s : HeapSys}
    (hr : KHeap.HeapRoom start stop) (h : (HeapSys.fresh start stop m).run ops = some s) :
    ∃ free, s.heap.Shape (KHeap.memStart start) (KHeap.memEnd start stop) free :=
  ⟨_, ((fresh_inv m hr).run h).rep.shape⟩

theorem run_shape_two_allocs : ∃ s, (HeapSys.fresh 4 164 fun _ => 7).run
    [.kmalloc 8, .kmalloc 5, .store 36 99, .kfree 36] = some s
      ∧ ∃ free, s.heap.Shape (KHeap.memStart 4) (KHeap.memEnd 4 164) free := by
  obtain ⟨s, hs⟩ := Option.isSome_iff_exists.1 (show ((HeapSys.fresh 4 164 fun _ => 7).run
    [.kmalloc 8, .kmalloc 5, .store 36 99, .kfree 36]).isSome = true by decide +kernel)
  exact ⟨s, hs, run_shape (by decide +kernel) hs⟩

/-! ## What `kmalloc` hands out -/

theorem searchSlot_none {fc : ℕ → ℕ} : ∀ {k n : ℕ}, KHeap.searchSlot fc k n = none →
    ∀ i, n ≤ i → i < n + k → fc i = 0
  | 0, n, _, i, h1, h2 => by omega
  | k + 1, n, h, i, h1, h2 => by
    simp only [KHeap.searchSlot] at h
    split_ifs at h with h0
    rcases Nat.eq_or_lt_of_le h1 with rfl | h3
    · exact h0
    · exact searchSlot_none h i h3 (by omega)

theorem payload_of_chunk {lo hi : ℕ} {h : KHeap} {B : BlockHeap} (R : Rep lo hi h B) {x : Blk}
    (hx : x ∈ B.blks) : h.payload (x.addr + 12) = {a | x.addr + 12 ≤ a ∧ a < x.addr + 12 + x.size} := by
  have hb := R.wf.bounds hx
  have hx' : x ∈ chunks lo hi B.blks := by simp [chunks, hx]
  unfold KHeap.payload
  rw [headerSize, Nat.add_sub_cancel, (R.next_of_chunk hx' (by omega)).2]

section Kmalloc

variable {lo hi : ℕ} {s : HeapSys} {A : BlockHeap} (I : HeapInv lo hi s A)

include I

/-- Sizes the rounding does not wrap: the bytes handed out are enough, and held by nothing else. -/
theorem contract_of_lt {size : ℕ} (hsize : size + 3 < 2 ^ 32) : KmallocContract s size := by
  intro hp
  rcases I.rep.kmalloc_cases size with ⟨-, -, h2⟩ | ⟨n, l, u, b, v, hA, hb, hfit, -, -, -, h2, h3, -⟩
  · rw [h2] at hp
    exact absurd rfl hp
  rw [h3]
  generalize (s.heap.kmalloc size).1 = h at h2
  -- the block handed out
  obtain ⟨x, hxA, hxa, hxs⟩ : ∃ x ∈ (carve (Function.update A.slots n l) u b v
      (KHeap.roundSize size)).blks, x.addr = b.addr ∧ size ≤ x.size := by
    have hle := KHeap.le_roundSize hsize
    unfold carve
    split_ifs with hsz
    · exact ⟨⟨b.addr, KHeap.roundSize size, true⟩, by simp, rfl, hle⟩
    · exact ⟨{ b with used := true }, by simp, rfl, hle.trans hfit⟩
  have hx : x ∈ chunks lo hi (carve (Function.update A.slots n l) u b v
      (KHeap.roundSize size)).blks := by simp [chunks, hxA]
  have hbd := h2.wf.bounds hxA
  have hroom := h2.chunk_room hx
  have hnext := h2.next_of_chunk hx (by omega)
  rw [← hxa]
  refine ⟨x.addr, h2.mem_chunkList.2 ⟨x, hx, rfl⟩, rfl, by omega, by omega, ?_, fun q hq => ?_,
    fun d hd a ha => ?_⟩
  · rw [hnext.1, h2.lastChunk_eq]
    exact hbd.2
  · obtain ⟨u', y, v', hA', hy, rfl⟩ := I.mem_live hq
    have hyb : y ≠ b := by
      rintro rfl
      rw [hb] at hy
      cases hy
    have hyuv : y ∈ u ++ v := by
      have : y ∈ u ++ b :: v := by rw [← hA, hA']; simp
      simp only [List.mem_append, List.mem_cons] at this ⊢
      tauto
    have hyA : y ∈ (carve (Function.update A.slots n l) u b v (KHeap.roundSize size)).blks := by
      simp only [List.mem_append] at hyuv
      unfold carve
      split_ifs
      · simp only [List.mem_append, List.mem_cons]
        tauto
      · simp only [List.mem_append, List.mem_cons]
        tauto
    rw [payload_of_chunk h2 hxA, payload_of_chunk h2 hyA, Set.disjoint_left]
    rintro a ⟨h4, h5⟩ ⟨h6, h7⟩
    rcases h2.chunks_apart hx (y := y) (by simp [chunks, hyA]) with h8 | h8 | h8
    · omega
    · omega
    · exact I.rep.wf.addr_ne hA y hyuv (by rw [← h8, hxa])
  · obtain ⟨y, hy, rfl⟩ := h2.mem_chunkList.1 hd
    rw [payload_of_chunk h2 hxA] at ha
    obtain ⟨h4, h5⟩ := ha
    simp only [headerSize]
    rcases h2.chunks_apart hx hy with h8 | h8 | h8
    · omega
    · omega
    · subst h8
      omega

/-- With no free chunk there is nothing to hand out. -/
theorem contract_of_full {size : ℕ} (hfull : ∀ c ∈ s.heap.chunkList, s.heap.isUsed c = true) :
    KmallocContract s size := by
  intro hp
  rcases I.rep.kmalloc_cases size with ⟨-, -, h2⟩ | ⟨n, l, u, b, v, hA, hb, -⟩
  · rw [h2] at hp
    exact absurd rfl hp
  · have hb' : b ∈ chunks lo hi A.blks := by rw [hA]; simp [chunks]
    have := hfull b.addr (I.rep.mem_chunkList.2 ⟨b, hb', rfl⟩)
    rw [I.rep.isUsed_eq hb', hb] at this
    cases this

/-- A size that wraps to the least one is given the first free chunk there is. -/
theorem kmalloc_of_wrap {size : ℕ} (h32 : size < 2 ^ 32) (hsize : ¬ size + 3 < 2 ^ 32) {c : ℕ}
    (hc : c ∈ s.heap.chunkList) (hu : s.heap.isUsed c = false) : (s.heap.kmalloc size).2 ≠ 0 := by
  have hround : KHeap.roundSize size = 8 := by
    have : add32 size 3 = size + 3 - 2 ^ 32 := by
      unfold add32
      omega
    rw [KHeap.roundSize_eq, this, if_pos (by omega)]
  obtain ⟨b, hb, rfl⟩ := I.rep.mem_chunkList.1 hc
  have hslot := (I.rep.mem_free_iff (Nat.log 2 (memoryChunkSize s.heap.mem b.addr)) b.addr).2
    ⟨hc, hu, rfl⟩
  obtain ⟨b', hb', -, -, hlog⟩ := (I.rep.wf.mem_slots _ _).1 hslot
  rw [← hlog] at hslot
  have hfit := I.rep.wf.fit b' hb'
  have hbd := I.rep.wf.bounds hb'
  have hlt := I.rep.region.hi_lt
  have h3 : 3 ≤ Nat.log 2 b'.size := Nat.le_log_of_pow_le (by omega) (by omega)
  have h31 : Nat.log 2 b'.size < 32 := Nat.log_lt_of_lt_pow (by omega) (by omega)
  rcases I.rep.kmalloc_cases size with ⟨hf, -⟩ | ⟨n, l, u, d, v, -, -, -, -, -, -, -, h4, -⟩
  · exfalso
    have hstart : KHeap.startSlot 8 = 3 := by decide +kernel
    rw [hround, KHeap.findSlot, hstart] at hf
    rw [if_neg (by decide)] at hf
    have hhead := searchSlot_none hf (Nat.log 2 b'.size) h3 (by omega)
    rw [I.rep.layout.heads] at hhead
    rcases hs : A.slots (Nat.log 2 b'.size) with _ | ⟨a, l⟩
    · rw [hs] at hslot
      simp at hslot
    · rw [hs] at hhead
      refine I.rep.layout.pos (Nat.log 2 b'.size) a ?_ hhead
      rw [hs]
      exact List.mem_cons_self
  · rw [h4]
    omega

end Kmalloc

/-- `kmalloc` keeps its contract, except on the sizes its rounding wraps to the least one while
the heap has a free chunk. -/
theorem kmalloc_contract_iff {start stop : ℕ} {m : Mem} {ops : List HeapOp} {s : HeapSys}
    (hr : KHeap.HeapRoom start stop) (h : (HeapSys.fresh start stop m).run ops = some s)
    {size : ℕ} (hsize : size < 2 ^ 32) : KmallocContract s size ↔
      size ≤ 2 ^ 32 - 4 ∨ ∀ c ∈ s.heap.chunkList, s.heap.isUsed c = true := by
  have I := (fresh_inv m hr).run h
  constructor
  · intro hc
    by_contra hn
    rw [not_or] at hn
    obtain ⟨hn, hfree⟩ := hn
    push Not at hfree
    obtain ⟨c, hcl, hcu⟩ := hfree
    have hk := kmalloc_of_wrap I hsize (by omega) hcl (by simpa using hcu)
    obtain ⟨d, -, h1, -, h2, h3, -⟩ := hc hk
    have hlast : (s.heap.kmalloc size).1.lastChunk = s.heap.lastChunk := by
      rcases I.rep.kmalloc_cases size with ⟨-, -, h4⟩ | ⟨n, l, u, b, v, -, -, -, -, -, -, h4, -⟩
      · rw [h4]
      · rw [h4.lastChunk_eq, I.rep.lastChunk_eq]
    rw [hlast, I.rep.lastChunk_eq] at h3
    have := I.rep.region.hi_lt
    simp only [headerSize] at h1
    omega
  · rintro (h1 | h1)
    · exact contract_of_lt I (by omega)
    · exact contract_of_full I h1

theorem kmalloc_contract_iff_fresh :
    KmallocContract (HeapSys.fresh 4 64 fun _ => 7) 8 ↔ 8 ≤ 2 ^ 32 - 4 ∨
      ∀ c ∈ (HeapSys.fresh 4 64 fun _ => 7).heap.chunkList,
        (HeapSys.fresh 4 64 fun _ => 7).heap.isUsed c = true :=
  kmalloc_contract_iff (by decide +kernel)
    (show HeapSys.run (HeapSys.fresh 4 64 fun _ => 7) [] = some _ from rfl) (by decide)

/-- Asked for `2 ^ 32 - 1` bytes, the fresh heap hands out eight. -/
theorem kmalloc_contract_max_size :
    ¬ KmallocContract (HeapSys.fresh 4 64 fun _ => 7) (2 ^ 32 - 1) := by
  intro hc
  obtain ⟨c, -, h1, -, h2, h3, -⟩ := hc (by decide +kernel)
  have hl : (((HeapSys.fresh 4 64 fun _ => 7).heap.kmalloc (2 ^ 32 - 1)).1).lastChunk = 44 := by
    decide +kernel
  rw [hl] at h3
  omega

end RTLKIM

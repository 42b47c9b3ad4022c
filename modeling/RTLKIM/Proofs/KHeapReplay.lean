import RTLKIM.Proofs.KHeapRun
import RTLKIM.Proofs.KHeapShape

/-!
# A heap with nothing allocated is a fresh one

With no used block, two blocks side by side would both be free, so there is one block and it is the
one `kheap_init` laid out (`eq_initHeap`). Heaps with the same blocks answer alike, whatever else
the memory holds (`SameHeap.returned`).
-/

namespace RTLKIM

open BlockHeap

/-! ## One free block -/

section Empty

variable {lo hi : ℕ} {A : BlockHeap}

theorem blks_eq_first (Rg : Region lo hi) (W : A.Wf lo hi) (hu : usedBlks A.blks = []) :
    A.blks = [firstBlk lo hi] := by
  have hfree : ∀ b ∈ A.blks, b.used = false := by
    intro b hb
    by_contra h
    have : b ∈ usedBlks A.blks := mem_usedBlks.2 ⟨hb, by simpa using h⟩
    rw [hu] at this
    cases this
  have htile := W.tiles
  have hco := W.coalesced
  have hroom := Rg.room
  rcases hblks : A.blks with _ | ⟨b, _ | ⟨d, l⟩⟩
  · rw [hblks] at htile
    have : lo + 12 + 8 = hi - 20 := (List.isChain_cons_cons.1 htile).1
    omega
  · rw [hblks] at htile hfree
    obtain ⟨h1, h2⟩ := List.isChain_cons_cons.1 htile
    have h3 : lo + 12 + 8 = b.addr := h1
    have h4 : b.addr + 12 + b.size = hi - 20 := (List.isChain_cons_cons.1 h2).1
    have h5 := hfree b List.mem_cons_self
    obtain ⟨a, n, f⟩ := b
    simp only [] at h3 h4 h5
    rw [h5, firstBlk, ← h3, show n = hi - lo - 52 by omega]
  · rw [hblks] at hco hfree
    have h1 := (List.isChain_cons_cons.1 hco).1
    rw [hfree b (by simp), hfree d (by simp)] at h1
    simp at h1

theorem eq_initHeap (Rg : Region lo hi) (W : A.Wf lo hi) (hu : usedBlks A.blks = []) :
    A = initHeap lo hi := by
  have hblks := blks_eq_first Rg W hu
  have hslots : A.slots = (initHeap lo hi).slots := by
    funext n
    have h1 := W.mem_slots n
    have h2 := (initHeap_wf Rg).mem_slots n
    have hmem : ∀ a, a ∈ A.slots n ↔ a ∈ (initHeap lo hi).slots n := by
      intro a
      rw [h1, h2, hblks]
      rfl
    have hperm := (List.perm_ext_iff_of_nodup (W.nodup n) ((initHeap_wf Rg).nodup n)).2 hmem
    by_cases hn : n = Nat.log 2 (firstBlk lo hi).size
    · subst hn
      simp only [initHeap, pushSlot, Function.update_self] at hperm ⊢
      exact List.perm_singleton.1 hperm
    · simp only [initHeap, pushSlot, Function.update_of_ne hn] at hperm ⊢
      exact List.perm_nil.1 hperm
  obtain ⟨blks, slots⟩ := A
  simp only [] at hblks hslots
  rw [hblks, hslots]
  rfl

end Empty

/-! ## Heaps with the same blocks -/

/-- Two systems whose heaps hold the same blocks, with the same live addresses. -/
def SameHeap (s t : HeapSys) : Prop :=
  ∃ lo hi A, HeapInv lo hi s A ∧ HeapInv lo hi t A ∧ s.live = t.live

namespace SameHeap

variable {s t s' t' : HeapSys}

theorem symm (h : SameHeap s t) : SameHeap t s := by
  obtain ⟨lo, hi, A, I, J, hl⟩ := h
  exact ⟨lo, hi, A, J, I, hl.symm⟩

theorem kmalloc (h : SameHeap s t) (size : ℕ) :
    (s.heap.kmalloc size).2 = (t.heap.kmalloc size).2 := by
  obtain ⟨lo, hi, A, I, J, -⟩ := h
  rcases I.rep.kmalloc_cases size with ⟨-, h1, h2⟩ | ⟨n, l, u, b, v, -, -, -, -, -, h1, -, h2, -⟩
  · rcases J.rep.kmalloc_cases size with ⟨-, -, h4⟩ | ⟨n, l, u, b, v, -, -, -, -, -, h3, -⟩
    · rw [h2, h4]
    · rw [h1] at h3
      cases h3
  · rcases J.rep.kmalloc_cases size with
      ⟨-, h3, -⟩ | ⟨n', l', u', b', v', -, -, -, -, -, h3, -, h4, -⟩
    · rw [h1] at h3
      cases h3
    · rw [h1, Option.some.injEq, Prod.mk.injEq] at h3
      rw [h2, h4, h3.2]

/-- A step one of them can take the other can take too. -/
theorem step {op : HeapOp} (h : SameHeap s t) (hs : s.step op = some s') :
    ∃ t', t.step op = some t' ∧ SameHeap s' t' := by
  have hk := h.kmalloc
  obtain ⟨lo, hi, A, I, J, hl⟩ := h
  have htake : ∀ t', t.step op = some t' → s'.live = t'.live →
      ∃ t', t.step op = some t' ∧ SameHeap s' t' :=
    fun t' ht hl' => ⟨t', ht, lo, hi, A.step op, I.step hs, J.step ht, hl'⟩
  rcases op with size | ptr | ⟨addr, val⟩
  · obtain ⟨hsz, rfl⟩ := HeapSys.step_kmalloc hs
    refine htake _ (if_pos hsz) ?_
    simp only [hk size, hl]
  · obtain ⟨hp, rfl⟩ := HeapSys.step_kfree hs
    refine htake _ (if_pos (hl ▸ hp)) ?_
    simp only [hl]
  · obtain ⟨h4, ⟨ptr, hptr, h1, h2⟩, rfl⟩ := HeapSys.step_store hs
    refine htake _ (if_pos ⟨h4, ptr, hl ▸ hptr, h1, ?_⟩) hl
    obtain ⟨u, b, v, hA, -, rfl⟩ := I.mem_live hptr
    rw [headerSize, Nat.add_sub_cancel] at h2 ⊢
    rw [size_of_layout I.rep.region I.rep.wf hA I.rep.layout] at h2
    rwa [size_of_layout J.rep.region J.rep.wf hA J.rep.layout]

theorem step_none {op : HeapOp} (h : SameHeap s t) (hs : s.step op = none) : t.step op = none := by
  rcases ht : t.step op with _ | t'
  · rfl
  · obtain ⟨s', hs', -⟩ := h.symm.step ht
    rw [hs] at hs'
    cases hs'

theorem answer (h : SameHeap s t) (op : HeapOp) : s.answer op = t.answer op := by
  rcases op with size | ptr | ⟨addr, val⟩
  · exact congrArg some (h.kmalloc size)
  · rfl
  · rfl

/-- They return the same addresses along every run. -/
theorem returned : ∀ {ops : List HeapOp} {s t : HeapSys}, SameHeap s t →
    s.returned ops = t.returned ops
  | [], _, _, _ => rfl
  | op :: ops, s, t, h => by
    rw [HeapSys.returned, HeapSys.returned, h.answer op]
    rcases hs : s.step op with _ | s'
    · rw [h.step_none hs]
    · obtain ⟨t', ht, h'⟩ := h.step hs
      rw [ht, Option.elim_some, Option.elim_some, returned h']

end SameHeap

/-! ## Everything freed -/

/-- The words of the chunk ring and of the free rings of `h` and `h'`, and the table that heads
the latter, are the same. -/
structure SameLinks (h h' : KHeap) : Prop where
  chunkList : h.chunkList = h'.chunkList
  first : h.firstChunk = h'.firstChunk
  last : h.lastChunk = h'.lastChunk
  freeChunk : h.freeChunk = h'.freeChunk
  ring : ∀ c ∈ h.chunkList, h.mem c = h'.mem c ∧ h.mem (c + 4) = h'.mem (c + 4)
  flags : ∀ c ∈ h.chunkList, h.mem (c + 8) = h'.mem (c + 8)
  free : ∀ c ∈ h.chunkList, h.isUsed c = false →
    h.mem (c + headerSize) = h'.mem (c + headerSize)
      ∧ h.mem (c + headerSize + 4) = h'.mem (c + headerSize + 4)

theorem Rep.sameLinks {lo hi : ℕ} {h h' : KHeap} {A : BlockHeap} (R : Rep lo hi h A)
    (R' : Rep lo hi h' A) : SameLinks h h' := by
  have hring := R.layout.ring.eq_on R'.layout.ring
  refine ⟨R.chunkList_eq.trans R'.chunkList_eq.symm, R.firstChunk_eq.trans R'.firstChunk_eq.symm,
    R.lastChunk_eq.trans R'.lastChunk_eq.symm,
    funext fun n => (R.layout.heads n).trans (R'.layout.heads n).symm, fun c hc => ?_,
    fun c hc => ?_, fun c hc hu => ?_⟩
  · rw [R.chunkList_eq] at hc
    exact ⟨hring c (.inl hc), hring _ (.inr ⟨c, hc, rfl⟩)⟩
  · obtain ⟨b, hb, rfl⟩ := R.mem_chunkList.1 hc
    rw [R.flags b hb, R'.flags b hb]
  · have hmem := (R.mem_free_iff _ c).2 ⟨hc, hu, rfl⟩
    have hfree := (R.layout.rings _).eq_on (R'.layout.rings
      (Nat.log 2 (memoryChunkSize h.mem c)))
    have hcf := mem_frees.2 ⟨c, hmem, rfl⟩
    exact ⟨hfree _ (.inl hcf), hfree _ (.inr ⟨_, hcf, rfl⟩)⟩

/-- After a run that freed all it allocated, the chunk ring and the free table are those of
`kheap_init`, one free chunk between the sentinels, and the heap answers as the fresh one did. -/
theorem run_freed {start stop : ℕ} {m : Mem} {ops : List HeapOp} {s : HeapSys}
    (hr : KHeap.HeapRoom start stop) (h : (HeapSys.fresh start stop m).run ops = some s)
    (hl : s.live = []) :
    SameLinks s.heap (HeapSys.fresh start stop m).heap
      ∧ s.heap.chunkList = [KHeap.memStart start, KHeap.memStart start + sizeofMemChunk,
          KHeap.memEnd start stop - sizeofMemChunk]
      ∧ ∀ reqs, s.returned reqs = (HeapSys.fresh start stop m).returned reqs := by
  have J := fresh_inv m hr
  have I := J.run h
  have hu : usedBlks (ops.foldl BlockHeap.step (initHeap (KHeap.memStart start)
      (KHeap.memEnd start stop))).blks = [] := by
    have hlive := I.live
    rwa [hl, List.nil_perm, livePtrs, List.map_eq_nil_iff] at hlive
  rw [eq_initHeap hr.region I.rep.wf hu] at I
  refine ⟨I.rep.sameLinks J.rep, I.rep.chunkList_eq, fun reqs => ?_⟩
  exact SameHeap.returned ⟨_, _, _, I, J, hl⟩

theorem run_freed_two_allocs : ∃ s, (HeapSys.fresh 4 164 fun _ => 7).run
    [.kmalloc 8, .kmalloc 5, .kfree 36, .kfree 56] = some s
      ∧ SameLinks s.heap (HeapSys.fresh 4 164 fun _ => 7).heap := by
  have h : (((HeapSys.fresh 4 164 fun _ => 7).run
      [.kmalloc 8, .kmalloc 5, .kfree 36, .kfree 56]).map (·.live)) = some [] := by
    decide +kernel
  obtain ⟨s, hs, hl⟩ := Option.map_eq_some_iff.1 h
  exact ⟨s, hs, (run_freed (by decide +kernel) hs hl).1⟩

end RTLKIM

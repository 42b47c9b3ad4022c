import RTLKIM.Proofs.KHeapRun

/-!
# A pointer that is not allocated

`kfree` does not look at the `used` word of the chunk it is given. A join takes a header from
`mem_meta`; without one the size of the chunk is taken from `kheap_mem_used`, and twelve bytes fewer
are added to `mem_free`, so one counter at least changes, whatever the memory holds.
-/

namespace RTLKIM

/-- The counters are 32-bit words. -/
structure KHeap.CounterWords (h : KHeap) : Prop where
  memFree : h.memFree < 2 ^ 32
  kheapMemUsed : h.kheapMemUsed < 2 ^ 32
  memMeta : h.memMeta < 2 ^ 32

namespace KHeap

variable {h : KHeap}

/-! ## The counters -/

theorem removeFree_memMeta (c : ℕ) : (h.removeFree c).memMeta = h.memMeta := rfl

theorem pushFree_memMeta (c : ℕ) : (h.pushFree c).memMeta = h.memMeta := rfl

theorem pushFree_memFree (c : ℕ) : (h.pushFree c).memFree
    = add32 h.memFree (sub32 (memoryChunkSize h.mem c) headerSize) := by
  simp only [pushFree, listPush]

/-- The chunk after is joined, or nothing is done. -/
theorem mergeNext_cases (h : KHeap) (c : ℕ) : h.mergeNext c = h
    ∨ (h.mergeNext c).memMeta = sub32 h.memMeta headerSize ∧ (h.mergeNext c).memFree < 2 ^ 32
      ∧ (h.mergeNext c).kheapMemUsed = h.kheapMemUsed := by
  unfold mergeNext
  by_cases hn : h.mem (h.mem c + 8) = 0
  · simp only [hn, if_true, removeFree_memMeta, removeFree_kheapMemUsed]
    exact .inr ⟨trivial, add32_lt _ _, trivial⟩
  · simp only [hn, if_false]
    exact .inl trivial

/-- The words written to free a chunk are not the link that its size is read from. -/
theorem memoryChunkSize_freed (m : Mem) (c : ℕ) :
    memoryChunkSize (listInit (m.set (c + 8) 0) (c + headerSize)) c = memoryChunkSize m c := by
  have hlink : listInit (m.set (c + 8) 0) (c + headerSize) c = m c := by
    rw [listInit_frame _ (by simp [cells, headerSize]; omega), Mem.set_of_ne _ _ (by omega)]
  unfold memoryChunkSize
  rw [hlink]

/-- The chunk is joined to the one before, or a free chunk of its own. -/
theorem mergePrev_cases (h : KHeap) (c p : ℕ) : (h.mergePrev c p).kheapMemUsed = h.kheapMemUsed
    ∧ ((h.mergePrev c p).memMeta = sub32 h.memMeta headerSize ∧ (h.mergePrev c p).memFree < 2 ^ 32
      ∨ (h.mergePrev c p).memMeta = h.memMeta
        ∧ (h.mergePrev c p).memFree
          = add32 h.memFree (sub32 (memoryChunkSize h.mem c) headerSize)) := by
  by_cases hp : h.mem (p + 8) = 0
  · rw [mergePrev, if_pos hp]
    dsimp only
    refine ⟨?_, .inl ⟨?_, add32_lt _ _⟩⟩
    · rw [pushFree_kheapMemUsed, removeFree_kheapMemUsed]
    · rw [pushFree_memMeta, removeFree_memMeta]
  · rw [mergePrev, if_neg hp]
    dsimp only
    refine ⟨?_, .inr ⟨?_, ?_⟩⟩
    · rw [pushFree_kheapMemUsed]
    · rw [pushFree_memMeta]
    · rw [pushFree_memFree, memoryChunkSize_freed]

/-- `kfree` of any pointer but `NULL`, in two steps. -/
theorem kfree_eq {p : ℕ} (h0 : h.init ≠ 0) (hp : p ≠ 0) : ∃ g : KHeap, h.kfree p
      = (g.mergeNext (p - headerSize)).mergePrev (p - headerSize) (h.mem (p - headerSize + 4))
    ∧ g.memFree = h.memFree ∧ g.memMeta = h.memMeta ∧ g.mem = h.mem
    ∧ g.kheapMemUsed = sub32 h.kheapMemUsed (memoryChunkSize h.mem (p - headerSize)) := by
  rw [kfree, if_neg (by simp [h0, hp])]
  exact ⟨_, rfl, rfl, rfl, rfl, rfl⟩

theorem kmalloc_counters (hw : h.CounterWords) (size : ℕ) : (h.kmalloc size).1.CounterWords := by
  by_cases h0 : h.init = 0
  · rw [kmalloc, if_pos h0]
    exact hw
  · rcases hn : findSlot h.freeChunk (roundSize size) with _ | n
    · rw [h.kmalloc_of_none h0 hn]
      exact hw
    · rw [h.kmalloc_of_some h0 hn]
      unfold takeChunk
      by_cases hs : add32 (roundSize size) sizeofMemChunk
          ≤ memoryChunkSize (h.listPop n).1.mem (h.listPop n).2
      · simp only [hs, if_true]
        exact ⟨sub32_lt _ _, add32_lt _ _, add32_lt _ _⟩
      · simp only [hs, if_false]
        exact ⟨sub32_lt _ _, add32_lt _ _, hw.memMeta⟩

theorem kfree_counters (hw : h.CounterWords) (p : ℕ) : (h.kfree p).CounterWords := by
  by_cases h0 : h.init = 0 ∨ p = 0
  · rw [kfree, if_pos h0]
    exact hw
  obtain ⟨g, hg, hfree, hmeta, -, hused⟩ := kfree_eq (fun h => h0 (.inl h)) fun h => h0 (.inr h)
  rw [hg]
  have hgw : g.CounterWords := ⟨hfree ▸ hw.memFree, hused ▸ sub32_lt _ _, hmeta ▸ hw.memMeta⟩
  have hn : (g.mergeNext (p - headerSize)).CounterWords := by
    rcases g.mergeNext_cases (p - headerSize) with h1 | ⟨h1, h2, h3⟩
    · rw [h1]
      exact hgw
    · exact ⟨h2, h3 ▸ hgw.kheapMemUsed, h1 ▸ sub32_lt _ _⟩
  obtain ⟨h1, ⟨h2, h3⟩ | ⟨h2, h3⟩⟩ := (g.mergeNext (p - headerSize)).mergePrev_cases
    (p - headerSize) (h.mem (p - headerSize + 4))
  · exact ⟨h3, h1 ▸ hn.kheapMemUsed, h2 ▸ sub32_lt _ _⟩
  · exact ⟨h3 ▸ add32_lt _ _, h1 ▸ hn.kheapMemUsed, h2 ▸ hn.memMeta⟩

/-- A counter changes: `mem_meta` with each join, and without one `kheap_mem_used` unless the chunk
has size 0, and then `mem_free`. -/
theorem kfree_changes (hw : h.CounterWords) (h0 : h.init ≠ 0) {p : ℕ} (hp : p ≠ 0) :
    ¬ h.Untouched (h.kfree p) := by
  rintro ⟨-, -, -, -, -, hfree, hused, hmeta⟩
  obtain ⟨g, hg, gfree, gmeta, gmem, gused⟩ := kfree_eq h0 hp
  rw [hg] at hfree hused hmeta
  set c := p - headerSize
  have hword := hw.memMeta
  obtain ⟨h1, h2⟩ := (g.mergeNext c).mergePrev_cases c (h.mem (c + 4))
  rcases g.mergeNext_cases c with h3 | ⟨h3, -, -⟩
  · rw [h3] at h1 h2 hfree hused hmeta
    rcases h2 with ⟨h2, -⟩ | ⟨-, h2⟩
    · -- one header
      have := sub32_eq_self (by decide) (gmeta ▸ h2.symm.trans hmeta)
      cases this
    · -- no join
      have hl0 : memoryChunkSize h.mem c = 0 :=
        sub32_eq_self (sub32_lt _ _) (gused.symm.trans (h1.symm.trans hused))
      have hadd : add32 h.memFree (sub32 0 headerSize) = h.memFree := by
        rw [← hl0, ← gfree, ← gmem, ← h2, hfree, gfree]
      have hsub : sub32 0 headerSize = 2 ^ 32 - 12 := by decide +kernel
      rw [hsub] at hadd
      have := hw.memFree
      unfold add32 at hadd
      omega
  · rw [gmeta] at h3
    rcases h2 with ⟨h2, -⟩ | ⟨h2, -⟩
    · -- two headers
      rw [h3, hmeta] at h2
      have h24 : h.memMeta = sub32 (sub32 h.memMeta 12) 12 := h2
      unfold sub32 at h24
      omega
    · have := sub32_eq_self (by decide) (h3.symm.trans (h2.symm.trans hmeta))
      cases this

end KHeap

namespace HeapSys

theorem run_counters : ∀ {ops : List HeapOp} {s s' : HeapSys}, s.heap.CounterWords →
    s.run ops = some s' → s'.heap.CounterWords
  | [], s, s', hw, h => by
    cases h
    exact hw
  | op :: ops, s, s', hw, h => by
    simp only [run, Option.bind_eq_some_iff] at h
    obtain ⟨t, h1, h2⟩ := h
    refine run_counters (s := t) ?_ h2
    rcases op with size | ptr | ⟨addr, val⟩
    · obtain ⟨-, rfl⟩ := step_kmalloc h1
      exact KHeap.kmalloc_counters hw size
    · obtain ⟨-, rfl⟩ := step_kfree h1
      exact KHeap.kfree_counters hw ptr
    · obtain ⟨-, -, rfl⟩ := step_store h1
      exact ⟨hw.memFree, hw.kheapMemUsed, hw.memMeta⟩

end HeapSys

theorem fresh_counters (start stop : ℕ) (m : Mem) :
    (HeapSys.fresh start stop m).heap.CounterWords where
  memFree := sub32_lt _ _
  kheapMemUsed := show 0 < 2 ^ 32 by decide
  memMeta := show sizeofMemChunk * 2 + headerSize < 2 ^ 32 by decide

/-- `kfree` leaves no heap untouched, whatever pointer other than `NULL` it is given. -/
theorem kfree_never_ignores {start stop : ℕ} {m : Mem} {ops : List HeapOp} {s : HeapSys}
    (hr : KHeap.HeapRoom start stop) (h : (HeapSys.fresh start stop m).run ops = some s) {p : ℕ}
    (hp : p ≠ 0) : ¬ s.heap.Untouched (s.heap.kfree p) := by
  have R := ((fresh_inv m hr).run h).rep
  have hinit : s.heap.init = 1 := congrArg Prod.fst R.globals
  exact KHeap.kfree_changes (HeapSys.run_counters (fresh_counters start stop m) h) (by omega) hp

/-- A chunk freed twice. -/
theorem kfree_never_ignores_freed : ∃ s, (HeapSys.fresh 4 164 fun _ => 7).run
    [.kmalloc 8, .kmalloc 8, .kfree 36] = some s ∧ ¬ s.heap.Untouched (s.heap.kfree 36) := by
  obtain ⟨s, hs⟩ := Option.isSome_iff_exists.1 (show ((HeapSys.fresh 4 164 fun _ => 7).run
    [.kmalloc 8, .kmalloc 8, .kfree 36]).isSome = true by decide +kernel)
  exact ⟨s, hs, kfree_never_ignores (by decide +kernel) hs (by decide)⟩

/-- The second `kfree` of a chunk counts its bytes as free once more. -/
theorem kfree_not_ignored : ∃ s, (HeapSys.fresh 4 164 fun _ => 7).run
    [.kmalloc 8, .kmalloc 8, .kfree 36] = some s ∧ 36 ∉ s.live
      ∧ ¬ s.heap.Untouched (s.heap.kfree 36) := by
  have hrun : ((HeapSys.fresh 4 164 fun _ => 7).run [.kmalloc 8, .kmalloc 8, .kfree 36]).any
      (fun s => decide (36 ∉ s.live ∧ (s.heap.kfree 36).kheapMemUsed ≠ s.heap.kheapMemUsed))
      = true := by decide +kernel
  obtain ⟨s, hs, hc⟩ := (Option.any_eq_true _ _).1 hrun
  obtain ⟨hlive, hused⟩ := of_decide_eq_true hc
  exact ⟨s, hs, hlive, fun h => hused h.counters.2.1⟩

end RTLKIM

import RTLKIM.Proofs.KHeapShape
import Mathlib.Algebra.BigOperators.Group.List.Basic
import Mathlib.Algebra.Order.BigOperators.Group.List
import Mathlib.Algebra.Order.Ring.Nat

/-!
# The heap's accounting

`kmalloc` counts what it hands out when it splits the chunk it takes, and twelve bytes less when it
takes the chunk whole, while `kfree` always takes off the size of the chunk. So `kheap_mem_used`
is the sum of the used chunks exactly as long as every chunk handed out was split off
(`accounted_step`).
-/

namespace RTLKIM

open BlockHeap

/-- The payload bytes of the used blocks. -/
def blockSum (A : BlockHeap) : ℕ := ((usedBlks A.blks).map Blk.size).sum

/-- The blocks of a chain fill the bytes from its first block to the end of its last. -/
theorem sum_of_chain {z : Blk} : ∀ {b : Blk} {l : List Blk}, List.IsChain Adj (b :: l) →
    (b :: l).getLast? = some z →
    b.addr + ((b :: l).map fun x => 12 + x.size).sum = z.addr + 12 + z.size
  | b, [], _, hz => by
    simp only [List.getLast?_singleton, Option.some.injEq] at hz
    subst hz
    simp only [List.map_cons, List.map_nil, List.sum_cons, List.sum_nil]
    omega
  | b, d :: l, hc, hz => by
    rw [List.isChain_cons_cons] at hc
    rw [List.getLast?_cons_cons] at hz
    have hadj : b.addr + 12 + b.size = d.addr := hc.1
    have ih := sum_of_chain hc.2 hz
    rw [List.map_cons, List.sum_cons]
    omega

section Sums

variable {lo hi : ℕ} {h : KHeap} {A : BlockHeap}

theorem blockSum_lt (Rg : Region lo hi) (W : A.Wf lo hi) : blockSum A < 2 ^ 32 := by
  have h1 := sum_of_chain W.tiles (chunks_getLast? lo hi A.blks)
  have hsub : (usedBlks A.blks).Sublist (chunks lo hi A.blks) :=
    List.filter_sublist.trans ((List.sublist_append_left _ _).trans (List.sublist_cons_self _ _))
  have h2 : ((usedBlks A.blks).map Blk.size).sum
      ≤ ((usedBlks A.blks).map fun x => 12 + x.size).sum :=
    List.sum_le_sum fun x _ => Nat.le_add_left _ _
  have h3 : ((usedBlks A.blks).map fun x => 12 + x.size).sum
      ≤ ((chunks lo hi A.blks).map fun x => 12 + x.size).sum :=
    (hsub.map _).sum_le_sum fun _ _ => Nat.zero_le _
  have hlt := Rg.hi_lt
  have hroom := Rg.room
  unfold blockSum
  change lo + _ = hi - 20 + 12 + 8 at h1
  change _ ≤ ((chunks lo hi A.blks).map fun x => 12 + x.size).sum at h3
  unfold chunks at h3
  omega

theorem usedSum_eq (R : Rep lo hi h A) : h.usedSum = blockSum A := by
  have hroom := R.region.room
  have hmid : ∀ b ∈ A.blks, (decide (b.addr ≠ h.firstChunk ∧ b.addr ≠ h.lastChunk
      ∧ h.isUsed b.addr = true)) = b.used := by
    intro b hb
    have hbd := R.wf.bounds hb
    rw [R.firstChunk_eq, R.lastChunk_eq, R.isUsed_eq (x := b) (by simp [chunks, hb])]
    have h1 : b.addr ≠ lo := by omega
    have h2 : b.addr ≠ hi - 20 := by omega
    simp [h1, h2]
  have hsize : ∀ b ∈ usedBlks A.blks, (memoryChunkSize h.mem ∘ Blk.addr) b = b.size := by
    intro b hb
    have hb' := (mem_usedBlks.1 hb).1
    have hbd := R.wf.bounds hb'
    rw [Function.comp_apply]
    exact (R.next_of_chunk (x := b) (by simp [chunks, hb']) (by omega)).2
  have hfilter : (h.chunkList.filter fun c => c ≠ h.firstChunk ∧ c ≠ h.lastChunk ∧ h.isUsed c)
      = (usedBlks A.blks).map Blk.addr := by
    rw [R.chunkList_eq, chunks, List.map_cons, List.map_append, List.map_singleton,
      List.filter_cons_of_neg (by simp [R.firstChunk_eq]), List.filter_append,
      List.filter_cons_of_neg (by simp [R.lastChunk_eq]), List.filter_nil, List.append_nil,
      List.filter_map]
    exact congrArg _ (List.filter_congr hmid)
  unfold KHeap.usedSum blockSum
  rw [hfilter, List.map_map, List.map_congr_left hsize]

theorem blockSum_split {u v : List Blk} {b : Blk} (hA : A.blks = u ++ b :: v)
    (hb : b.used = true) : blockSum A
      = ((usedBlks u).map Blk.size).sum + b.size + ((usedBlks v).map Blk.size).sum := by
  unfold blockSum
  rw [hA, usedBlks_append, usedBlks_cons_used hb]
  simp only [List.map_append, List.map_cons, List.sum_append, List.sum_cons]
  omega

end Sums

section Steps

variable {lo hi : ℕ} {s s' : HeapSys} {A : BlockHeap}

/-- Once the counter is the sum, the rest of the accounting follows. -/
theorem accounted_iff (I : HeapInv lo hi s A) :
    Accounted s ↔ s.heap.kheapMemUsed = blockSum A := by
  rw [← usedSum_eq I.rep]
  refine ⟨fun h => h.sum, fun h => ⟨h, fun hl => ?_, fun p hp => ?_⟩⟩
  · have hlive := I.live
    rw [hl, List.nil_perm, livePtrs, List.map_eq_nil_iff] at hlive
    rw [h, usedSum_eq I.rep, blockSum, hlive]
    rfl
  · obtain ⟨u, b, v, hA, hb, rfl⟩ := I.mem_live hp
    rw [h, usedSum_eq I.rep, blockSum_split hA hb, headerSize, Nat.add_sub_cancel,
      size_of_layout I.rep.region I.rep.wf hA I.rep.layout]
    omega

/-- A `kmalloc` keeps the accounting exactly if it splits what it takes. -/
theorem accounted_kmalloc (I : HeapInv lo hi s A) (ha : s.heap.kheapMemUsed = blockSum A)
    (size : ℕ) : (s.heap.kmalloc size).1.kheapMemUsed = blockSum (A.step (.kmalloc size))
      ↔ Splits s size := by
  rcases I.rep.kmalloc_cases size with
    ⟨h0, h1, h2⟩ | ⟨n, l, u, b, v, hA, hb, hfit, h0, hs, h1, h2, h3, h4⟩
  · rw [BlockHeap.step_of_none h1, h2, Splits, h0]
    simp [ha]
  · have hfc : s.heap.freeChunk n = b.addr := by
      rw [I.rep.layout.heads, hs]
      rfl
    have hsplit : Splits s size ↔ KHeap.roundSize size + 20 ≤ b.size := by
      unfold Splits
      rw [h0]
      simp only [Option.some.injEq, forall_eq', hfc, sizeofMemChunk,
        size_of_layout I.rep.region I.rep.wf hA I.rep.layout]
    have hlt := blockSum_lt h2.region h2.wf
    have hbd := I.rep.wf.bounds (b := b) (by simp [hA])
    have hhi := I.rep.region.hi_lt
    rw [hsplit, BlockHeap.step_of_some h1, h4, ha]
    unfold blockSum at hlt ⊢
    rw [usedBlks_carve] at hlt ⊢
    rw [hA, usedBlks_append, usedBlks_cons_free hb]
    simp only [List.map_append, List.map_cons, List.sum_append, List.sum_cons] at hlt ⊢
    split_ifs at hlt ⊢ with hsz
    · rw [add32_of_lt (by omega)]
      exact ⟨fun _ => hsz, fun _ => by omega⟩
    · refine ⟨fun h => ?_, fun h => absurd h hsz⟩
      exfalso
      unfold add32 sub32 at h
      omega

theorem accounted_step (I : HeapInv lo hi s A) (ha : Accounted s) {op : HeapOp}
    (h : s.step op = some s') : Accounted s' ↔ ∀ size, op = .kmalloc size → Splits s size := by
  rw [accounted_iff (I.step h)]
  rw [accounted_iff I] at ha
  rcases op with size | ptr | ⟨addr, val⟩
  · obtain ⟨-, rfl⟩ := HeapSys.step_kmalloc h
    rw [accounted_kmalloc I ha size]
    simp
  · obtain ⟨hp, rfl⟩ := HeapSys.step_kfree h
    obtain ⟨u, b, v, hA, hb, rfl⟩ := I.mem_live hp
    have hlt := blockSum_lt I.rep.region I.rep.wf
    have hsum := blockSum_split hA hb
    have hfree : blockSum (A.step (.kfree (b.addr + 12)))
        = ((usedBlks u).map Blk.size).sum + ((usedBlks v).map Blk.size).sum := by
      unfold blockSum
      rw [BlockHeap.step_free, usedBlks_free I.rep.wf hA hb, List.map_append,
        List.sum_append]
    simp only [reduceCtorEq, false_implies, implies_true, iff_true]
    rw [(I.rep.kfree hA hb).2, ha, hfree, sub32_of_le (by omega) hlt]
    omega
  · obtain ⟨-, -, rfl⟩ := HeapSys.step_store h
    rw [BlockHeap.step_write]
    simpa using ha

end Steps

/-! ## Runs -/

namespace HeapSys

theorem run_append : ∀ (ops ops' : List HeapOp) (s : HeapSys),
    s.run (ops ++ ops') = (s.run ops).bind fun t => t.run ops'
  | [], _, _ => rfl
  | op :: ops, ops', s => by
    simp only [List.cons_append, run]
    rcases s.step op with _ | t
    · rfl
    · exact run_append ops ops' t

end HeapSys

/-- Runs whose every `kmalloc` splits keep the accounting. -/
theorem accounted_run {lo hi : ℕ} : ∀ {ops : List HeapOp} {s t : HeapSys} {A : BlockHeap},
    HeapInv lo hi s A → Accounted s →
    (∀ pre size suf s', ops = pre ++ .kmalloc size :: suf → s.run pre = some s' → Splits s' size) →
    s.run ops = some t → Accounted t
  | [], s, t, A, _, ha, _, h => by
    cases h
    exact ha
  | op :: ops, s, t, A, I, ha, hs, h => by
    simp only [HeapSys.run, Option.bind_eq_some_iff] at h
    obtain ⟨s₁, h1, h2⟩ := h
    have ha₁ : Accounted s₁ := by
      refine (accounted_step I ha h1).2 fun size e => ?_
      subst e
      exact hs [] size ops s rfl rfl
    have hs₁ : ∀ pre size suf s', ops = pre ++ .kmalloc size :: suf → s₁.run pre = some s' →
        Splits s' size := by
      intro pre size suf s' e hr
      refine hs (op :: pre) size suf s' (by rw [e]; rfl) ?_
      simp only [HeapSys.run, h1, Option.bind_some]
      exact hr
    exact accounted_run (I.step h1) ha₁ hs₁ h2

theorem fresh_accounted (m : Mem) {start stop : ℕ} (hr : KHeap.HeapRoom start stop) :
    Accounted (HeapSys.fresh start stop m) :=
  (accounted_iff (fresh_inv m hr)).2 (kheapInit_rep m hr).2

/-- Along a run `kheap_mem_used` is what is in use in every state exactly if every `kmalloc` of
the run splits the chunk it takes. -/
theorem accounted_iff_splits {start stop : ℕ} {m : Mem} {ops : List HeapOp} {s : HeapSys}
    (hr : KHeap.HeapRoom start stop) (h : (HeapSys.fresh start stop m).run ops = some s) :
    (∀ pre suf s', ops = pre ++ suf → (HeapSys.fresh start stop m).run pre = some s' →
        Accounted s') ↔
      ∀ pre size suf s', ops = pre ++ .kmalloc size :: suf →
        (HeapSys.fresh start stop m).run pre = some s' → Splits s' size := by
  have I := fresh_inv m hr
  constructor
  · intro ha pre size suf s' e hpre
    rw [e, HeapSys.run_append, hpre, Option.bind_some, HeapSys.run, Option.bind_eq_some_iff] at h
    obtain ⟨s₁, h1, -⟩ := h
    have ha₀ := ha pre _ s' e hpre
    have ha₁ : Accounted s₁ := by
      refine ha (pre ++ [.kmalloc size]) suf s₁ (by rw [e, List.append_assoc]; rfl) ?_
      rw [HeapSys.run_append, hpre, Option.bind_some, HeapSys.run, h1]
      rfl
    exact (accounted_step (I.run hpre) ha₀ h1).1 ha₁ size rfl
  · intro hs pre suf s' e hpre
    refine accounted_run I (fresh_accounted m hr) (fun pre' size suf' t e' ht => ?_) hpre
    exact hs pre' size (suf' ++ suf) t (by rw [e, e', List.append_assoc]; rfl) ht

theorem accounted_iff_splits_alloc : KHeap.HeapRoom 4 164
    ∧ ((HeapSys.fresh 4 164 fun _ => 7).run [.kmalloc 8]).isSome = true
    ∧ ∀ pre suf s', [HeapOp.kmalloc 8] = pre ++ suf →
      (HeapSys.fresh 4 164 fun _ => 7).run pre = some s' → Accounted s' := by
  have hsome : ((HeapSys.fresh 4 164 fun _ => 7).run [.kmalloc 8]).isSome = true := by
    decide +kernel
  refine ⟨by decide +kernel, hsome, ?_⟩
  obtain ⟨s, hs⟩ := Option.isSome_iff_exists.1 hsome
  refine (accounted_iff_splits (by decide +kernel) hs).2 fun pre size suf s' e hpre => ?_
  obtain ⟨rfl, rfl⟩ : pre = [] ∧ size = 8 := by
    rcases pre with _ | ⟨op, pre⟩
    · simp only [List.nil_append, List.cons.injEq, HeapOp.kmalloc.injEq] at e
      exact ⟨rfl, e.1.symm⟩
    · simp at e
  obtain rfl : HeapSys.fresh 4 164 (fun _ => 7) = s' := Option.some.inj hpre
  intro n hn
  have h6 : KHeap.findSlot (HeapSys.fresh 4 164 fun _ => 7).heap.freeChunk (KHeap.roundSize 8)
      = some 6 := by decide +kernel
  obtain rfl : 6 = n := Option.some.inj (h6.symm.trans hn)
  decide +kernel

/-- Eight bytes taken whole from a heap of sixty: `kheap_mem_used` is four below zero. -/
theorem accounted_whole_chunk : ∃ s, (HeapSys.fresh 4 64 fun _ => 7).run [.kmalloc 8] = some s
    ∧ ¬ Accounted s := by
  have h : (((HeapSys.fresh 4 64 fun _ => 7).run [.kmalloc 8]).map fun s =>
      (s.heap.kheapMemUsed, s.heap.usedSum)) = some (4294967292, 8) := by decide +kernel
  obtain ⟨s, hs, he⟩ := Option.map_eq_some_iff.1 h
  refine ⟨s, hs, fun ha => ?_⟩
  have := ha.sum
  rw [Prod.mk.injEq] at he
  omega

end RTLKIM

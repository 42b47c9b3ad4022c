import RTLKIM.KHeapSpec
import RTLKIM.Proofs.KHeapFree

/-!
# Runs of the kernel heap

`kheap_init` lays out one free block, and each operation of a run does to the blocks what the block
heap's operation does (`HeapInv.step`), so every state of a run is a block heap in memory whose
used blocks are the live allocations (`HeapInv.run`).
-/

namespace RTLKIM

open BlockHeap

/-! ## `kheap_init` -/

/-- The block `kheap_init` makes free. -/
def firstBlk (lo hi : ℕ) : Blk := ⟨lo + 20, hi - lo - 52, false⟩

/-- The block heap `kheap_init` lays out. -/
def initHeap (lo hi : ℕ) : BlockHeap := ⟨[firstBlk lo hi], pushSlot (fun _ => []) (firstBlk lo hi)⟩

theorem KHeap.HeapRoom.region {start stop : ℕ} (h : KHeap.HeapRoom start stop) :
    Region (KHeap.memStart start) (KHeap.memEnd start stop) := by
  have hlt := add32_lt start (sub32 stop start)
  refine ⟨?_, ?_, h, ?_⟩
  · exact Nat.mul_mod_left _ 4
  · exact Nat.mul_mod_left _ 4
  · exact (Nat.div_mul_le_self _ 4).trans_lt hlt

theorem initHeap_wf {lo hi : ℕ} (Rg : Region lo hi) : (initHeap lo hi).Wf lo hi := by
  have h1 := Rg.room
  have h2 := Rg.lo_aligned
  have h3 := Rg.hi_aligned
  have hs : Slots ([] ++ firstBlk lo hi :: []) (pushSlot (fun _ => []) (firstBlk lo hi)) :=
    Slots.push ⟨by simp, by simp⟩ rfl (by simp)
  refine ⟨?_, by simp [initHeap], ?_, hs.1, hs.2⟩
  · have h4 : lo + 20 + 12 + (hi - lo - 52) = hi - 20 := by omega
    simp [chunks, initHeap, firstBlk, Adj, h4]
  · simp only [initHeap, firstBlk, List.mem_singleton, forall_eq]
    omega

/-- One chunk, linked to itself, and no free chunk. -/
theorem layout_singleton {m : Mem} {c : ℕ} (h : Ring 4 m [c]) :
    Layout m (fun _ => 0) [c] (fun _ => []) := by
  refine ⟨h, fun _ => rfl, fun _ => Cycle.Chain.nil _, by simp, by simp, by simp, by simp, by simp,
    ?_⟩
  intro a ha b hb
  rw [List.mem_singleton.1 ha, List.mem_singleton.1 hb]
  exact .inr (.inr rfl)

/-- The three chunks of `kheap_init`, linked, with the flags of the sentinels set. -/
theorem kheapInit_layout (m : Mem) {lo hi : ℕ} (Rg : Region lo hi) :
    let m₃ := memoryChunkInit (memoryChunkInit (memoryChunkInit m lo) (lo + 20)) (hi - 20)
    let m₅ := insertAfter (insertAfter m₃ lo (lo + 20)) (lo + 20) (hi - 20)
    let m₇ := (m₅.set (lo + 8) 1).set (hi - 20 + 8) 1
    Layout m₇ (fun _ => 0) [lo, lo + 20, hi - 20] (fun _ => []) ∧ m₇ (lo + 8) = 1
      ∧ m₇ (lo + 20 + 8) = 0 ∧ m₇ (hi - 20 + 8) = 1 ∧ Ring 4 m₇ [lo + 20 + 12] := by
  intro m₃ m₅ m₇
  have hroom := Rg.room
  obtain ⟨a1, a2, a3⟩ := memoryChunkInit_spec m lo
  obtain ⟨b1, b2, b3⟩ := memoryChunkInit_spec (memoryChunkInit m lo) (lo + 20)
  obtain ⟨c1, c2, c3⟩ := memoryChunkInit_spec
    (memoryChunkInit (memoryChunkInit m lo) (lo + 20)) (hi - 20)
  have L₁ : Layout (memoryChunkInit m lo) (fun _ => 0) [lo] (fun _ => []) := layout_singleton a1
  have L₃ : Layout m₃ (fun _ => 0) [lo] (fun _ => []) := by
    refine L₁.initChunk fun a ha i hi' => ?_
    rw [List.mem_singleton.1 ha]
    exact (memoryChunkInit_frame _ (by omega)).trans (memoryChunkInit_frame _ (by omega))
  have hframe : ∀ i < 20, m₃ (lo + 20 + i) = memoryChunkInit (memoryChunkInit m lo) (lo + 20)
      (lo + 20 + i) := fun i hi' => memoryChunkInit_frame _ (by omega)
  have hself : Ring 4 m₃ [lo + 20] := by
    rw [Ring.singleton_iff] at b1 ⊢
    exact ⟨(hframe 0 (by omega)).trans b1.1, (hframe 4 (by omega)).trans b1.2⟩
  obtain ⟨L₄, f₄⟩ := L₃.insertSelf (u := []) (v := []) (d := lo + 20) (by simp) hself
  have hlast : ∀ i < 20, insertAfter m₃ lo (lo + 20) (hi - 20 + i) = m₃ (hi - 20 + i) := by
    intro i hi'
    refine f₄ _ ?_
    simp only [mem_cells, List.nil_append, List.mem_cons, List.not_mem_nil, or_false,
      exists_eq_or_imp, exists_eq_left]
    omega
  have hself' : Ring 4 (insertAfter m₃ lo (lo + 20)) [hi - 20] := by
    rw [Ring.singleton_iff] at c1 ⊢
    exact ⟨(hlast 0 (by omega)).trans c1.1, (hlast 4 (by omega)).trans c1.2⟩
  obtain ⟨L₅, f₅⟩ := L₄.insertSelf (u := [lo]) (v := []) (d := hi - 20) (by simp; omega) hself'
  have hmid : ∀ i ∈ [8, 12, 16], m₇ (lo + 20 + i) = memoryChunkInit (memoryChunkInit m lo) (lo + 20)
      (lo + 20 + i) := by
    intro i hi'
    have hi'' := hi'
    simp only [List.mem_cons, List.not_mem_nil, or_false] at hi''
    have e1 : m₇ (lo + 20 + i) = m₅ (lo + 20 + i) :=
      (Mem.set_of_ne _ _ (by omega)).trans (Mem.set_of_ne _ _ (by omega))
    have hs₅ : lo + 20 + i ∉ cells 4 ((hi - 20) :: ([lo] ++ (lo + 20) :: [])) := by
      simp only [mem_cells, List.cons_append, List.nil_append, List.mem_cons, List.not_mem_nil,
        or_false, exists_eq_or_imp, exists_eq_left]
      omega
    have hs₄ : lo + 20 + i ∉ cells 4 ((lo + 20) :: ([] ++ lo :: [])) := by
      simp only [mem_cells, List.nil_append, List.mem_cons, List.not_mem_nil, or_false,
        exists_eq_or_imp, exists_eq_left]
      omega
    rw [e1]
    exact (f₅ _ hs₅).trans ((f₄ _ hs₄).trans (hframe i (by omega)))
  have L₇ : Layout m₇ (fun _ => 0) [lo, lo + 20, hi - 20] (fun _ => []) :=
    (L₅.setFlag (by simp) 1).setFlag (by simp) 1
  refine ⟨L₇, ?_, (hmid 8 (by simp)).trans b2, Mem.set_self _ _ _, ?_⟩
  · exact (Mem.set_of_ne _ _ (by omega)).trans (Mem.set_self _ _ _)
  · rw [Ring.singleton_iff] at b3 ⊢
    exact ⟨(hmid 12 (by simp)).trans b3.1, (hmid 16 (by simp)).trans b3.2⟩

theorem kheapInit_rep (m : Mem) {start stop : ℕ} (hr : KHeap.HeapRoom start stop) :
    Rep (KHeap.memStart start) (KHeap.memEnd start stop) ((KHeap.boot m).kheapInit start stop)
        (initHeap (KHeap.memStart start) (KHeap.memEnd start stop))
      ∧ ((KHeap.boot m).kheapInit start stop).kheapMemUsed = 0 := by
  have Rg := hr.region
  set lo := KHeap.memStart start with hlo
  set hi := KHeap.memEnd start stop with hhi
  obtain ⟨L, f1, f2, f3, hself⟩ := kheapInit_layout m Rg
  have W := initHeap_wf Rg
  set m₇ := ((insertAfter (insertAfter (memoryChunkInit (memoryChunkInit (memoryChunkInit m lo)
    (lo + 20)) (hi - 20)) lo (lo + 20)) (lo + 20) (hi - 20)).set (lo + 8) 1).set (hi - 20 + 8) 1
    with hm₇
  have hA : (initHeap lo hi).blks = [] ++ firstBlk lo hi :: [] := rfl
  have hadr : (chunks lo hi (initHeap lo hi).blks).map Blk.addr = [lo, lo + 20, hi - 20] := rfl
  have hsize : memoryChunkSize m₇ (lo + 20) = (firstBlk lo hi).size := by
    rw [← hadr] at L
    exact size_of_layout Rg W hA L
  have hslot := slot_of_size Rg W (b := firstBlk lo hi) (by simp [initHeap])
  set g : KHeap := ⟨m₇, 0, fun _ => 0, lo, hi - 20, 0, 0, 0⟩ with hg
  have heq : (KHeap.boot m).kheapInit start stop =
      { g.listPush (Nat.log 2 (firstBlk lo hi).size) (lo + 20) with
        memFree := sub32 (firstBlk lo hi).size headerSize
        memMeta := sizeofMemChunk * 2 + headerSize
        init := 1 } := by
    unfold KHeap.kheapInit
    simp only [KHeap.boot, sizeofMemChunk, ← hlo, ← hhi, ← hm₇, hsize, hslot, hg]
  obtain ⟨h1, h2, -⟩ := Layout.listPush (h := g) (n := Nat.log 2 (firstBlk lo hi).size)
    (c := lo + 20) L (by simp) (by omega) (by simp) hself
  rw [heq]
  refine ⟨⟨Rg, rfl, W, h1, fun b hb => ?_⟩, rfl⟩
  refine (h2 b.addr (by rw [← hadr]; exact List.mem_map_of_mem hb)).trans ?_
  simp only [chunks, initHeap, List.cons_append, List.nil_append, List.mem_cons, List.not_mem_nil,
    or_false] at hb
  rcases hb with rfl | rfl | rfl
  · exact f1
  · exact f2
  · exact f3

/-! ## Writes into a payload -/

/-- A word of the payload of a used block is none of the heap's own. -/
theorem Rep.store {lo hi : ℕ} {h : KHeap} {A : BlockHeap} {u v : List Blk} {b : Blk}
    (R : Rep lo hi h A) (hA : A.blks = u ++ b :: v) (hb : b.used = true) {addr : ℕ} (val : ℕ)
    (h4 : addr % 4 = 0) (h1 : b.addr + 12 ≤ addr) (h2 : addr < b.addr + 12 + b.size) :
    Rep lo hi { h with mem := h.mem.set addr val } A := by
  have hpw := R.wf.pairwise
  rw [hA, show u ++ b :: v = u ++ ([b] ++ v) from rfl, chunks_append, List.singleton_append,
    List.pairwise_append] at hpw
  have hpr := List.pairwise_cons.1 hpw.2.1
  have hfit := R.wf.fit
  have hbfit := hfit b (by simp [hA])
  have hlo := R.region.lo_aligned
  have hhi := R.region.hi_aligned
  have hbd := R.wf.bounds (b := b) (by simp [hA])
  -- every other chunk ends before the payload or starts after it
  have hout : ∀ x ∈ chunks lo hi A.blks, x.addr ≠ b.addr → ∀ i < 20, x.addr + i ≠ addr := by
    intro x hx hne i hi'
    rw [hA, show u ++ b :: v = u ++ ([b] ++ v) from rfl, Rep.mem_chunks_split] at hx
    rcases hx with hx | hx
    · rw [List.mem_singleton.1 hx] at hne
      exact absurd rfl hne
    · rw [← List.cons_append] at hx
      rcases List.mem_append.1 hx with hx | hx
      · have := hpw.2.2 x hx b (by simp)
        have hsz : 8 ≤ x.size := by
          rcases List.mem_cons.1 hx with rfl | hx
          · exact le_rfl
          · exact (hfit x (by simp [hA, hx])).1
        omega
      · have := hpr.1 x hx
        omega
  have hown : ∀ x ∈ chunks lo hi A.blks, ∀ i < 12, x.addr + i ≠ addr := by
    intro x hx i hi'
    by_cases hne : x.addr = b.addr
    · omega
    · exact hout x hx hne i (by omega)
  have hfree : ∀ n, ∀ a ∈ A.slots n, ∀ i < 20, a + i ≠ addr := by
    intro n a ha i hi'
    obtain ⟨x, hx, rfl, hx2, -⟩ := (R.wf.mem_slots n a).1 ha
    have hxb : x.addr ≠ b.addr := by
      intro e
      have hxb : x ≠ b := by
        rintro rfl
        rw [hb] at hx2
        cases hx2
      refine R.wf.addr_ne hA x ?_ e
      rw [hA] at hx
      simp only [List.mem_append, List.mem_cons] at hx ⊢
      tauto
    exact hout x (by simp [chunks, hx]) hxb i hi'
  refine ⟨R.region, R.globals, R.wf, R.layout.write ?_ fun n => ?_, fun x hx => ?_⟩
  · rintro x (hx | ⟨a, ha, rfl⟩)
    · obtain ⟨c, hc, rfl⟩ := List.mem_map.1 hx
      exact Mem.set_of_ne _ _ (hown c hc 0 (by omega))
    · obtain ⟨c, hc, rfl⟩ := List.mem_map.1 ha
      exact Mem.set_of_ne _ _ (hown c hc 4 (by omega))
  · rintro x (hx | ⟨y, hy, rfl⟩)
    · obtain ⟨a, ha, rfl⟩ := mem_frees.1 hx
      exact Mem.set_of_ne _ _ (hfree n a ha 12 (by omega))
    · obtain ⟨a, ha, rfl⟩ := mem_frees.1 hy
      exact Mem.set_of_ne _ _ (hfree n a ha 16 (by omega))
  · exact (Mem.set_of_ne _ _ (hown x hx 8 (by omega))).trans (R.flags x hx)

/-! ## Steps and runs -/

/-- An operation on the blocks. -/
def BlockHeap.step (A : BlockHeap) : HeapOp → BlockHeap
  | .kmalloc size => ((A.alloc size).map Prod.fst).getD A
  | .kfree ptr => A.free (ptr - headerSize)
  | .store _ _ => A

theorem BlockHeap.step_of_none {A : BlockHeap} {size : ℕ} (h : A.alloc size = none) :
    A.step (.kmalloc size) = A := by
  rw [BlockHeap.step, h]
  rfl

theorem BlockHeap.step_of_some {A A' : BlockHeap} {size p : ℕ} (h : A.alloc size = some (A', p)) :
    A.step (.kmalloc size) = A' := by
  rw [BlockHeap.step, h]
  rfl

theorem BlockHeap.step_free (A : BlockHeap) (c : ℕ) : A.step (.kfree (c + 12)) = A.free c := by
  rw [BlockHeap.step, headerSize, Nat.add_sub_cancel]

theorem BlockHeap.step_write (A : BlockHeap) (addr val : ℕ) : A.step (.store addr val) = A := by
  rw [BlockHeap.step]

namespace HeapSys

variable {s s' : HeapSys}

theorem step_kmalloc {size : ℕ} (h : s.step (.kmalloc size) = some s') : size < 2 ^ 32 ∧
    s' = ⟨(s.heap.kmalloc size).1, if (s.heap.kmalloc size).2 = 0 then s.live
      else (s.heap.kmalloc size).2 :: s.live⟩ := by
  rw [HeapSys.step] at h
  by_cases hs : size < 2 ^ 32
  · rw [if_pos hs] at h
    exact ⟨hs, (Option.some.inj h).symm⟩
  · rw [if_neg hs] at h
    simp at h

theorem step_kfree {ptr : ℕ} (h : s.step (.kfree ptr) = some s') :
    ptr ∈ s.live ∧ s' = ⟨s.heap.kfree ptr, s.live.erase ptr⟩ := by
  rw [HeapSys.step] at h
  by_cases hp : ptr ∈ s.live
  · rw [if_pos hp] at h
    exact ⟨hp, (Option.some.inj h).symm⟩
  · rw [if_neg hp] at h
    simp at h

theorem step_store {addr val : ℕ} (h : s.step (.store addr val) = some s') : addr % 4 = 0
    ∧ (∃ ptr ∈ s.live, ptr ≤ addr ∧ addr < ptr + memoryChunkSize s.heap.mem (ptr - headerSize))
    ∧ s' = { s with heap := { s.heap with mem := s.heap.mem.set addr val } } := by
  rw [HeapSys.step] at h
  split_ifs at h with hp
  exact ⟨hp.1, hp.2, (Option.some.inj h).symm⟩

end HeapSys

/-- The payloads of the used blocks. -/
def livePtrs (A : BlockHeap) : List ℕ := (usedBlks A.blks).map fun b => b.addr + 12

/-- The heap of `s` is `A` in memory, and the live addresses are the payloads of the used
blocks. -/
structure HeapInv (lo hi : ℕ) (s : HeapSys) (A : BlockHeap) : Prop where
  rep : Rep lo hi s.heap A
  live : s.live.Perm (livePtrs A)

namespace HeapInv

variable {lo hi : ℕ} {s s' : HeapSys} {A : BlockHeap}

theorem mem_live (I : HeapInv lo hi s A) {p : ℕ} (hp : p ∈ s.live) :
    ∃ u b v, A.blks = u ++ b :: v ∧ b.used = true ∧ p = b.addr + 12 := by
  rw [I.live.mem_iff, livePtrs, List.mem_map] at hp
  obtain ⟨b, hb, rfl⟩ := hp
  obtain ⟨hb, hused⟩ := mem_usedBlks.1 hb
  obtain ⟨u, v, h⟩ := List.append_of_mem hb
  exact ⟨u, b, v, h, hused, rfl⟩

theorem nodup (I : HeapInv lo hi s A) : s.live.Nodup := by
  have h := I.rep.wf.pairwise
  rw [chunks, List.pairwise_cons, List.pairwise_append] at h
  rw [I.live.nodup_iff, livePtrs, List.Nodup, List.pairwise_map]
  exact (h.2.1.filter _).imp fun hab => by omega

theorem kmalloc (I : HeapInv lo hi s A) (size : ℕ) :
    HeapInv lo hi ⟨(s.heap.kmalloc size).1, if (s.heap.kmalloc size).2 = 0 then s.live
      else (s.heap.kmalloc size).2 :: s.live⟩ (A.step (.kmalloc size)) := by
  rcases I.rep.kmalloc_cases size with ⟨-, h1, h2⟩ | ⟨n, l, u, b, v, hA, hb, -, -, -, h1, h2, h3, -⟩
  · rw [step_of_none h1, h2, if_pos rfl]
    exact I
  · rw [step_of_some h1, h3, if_neg (by omega)]
    refine ⟨h2, ?_⟩
    have hlive := I.live
    rw [livePtrs, hA, usedBlks_append, usedBlks_cons_free hb, List.map_append] at hlive
    rw [livePtrs, usedBlks_carve, List.map_append, List.map_cons]
    exact (hlive.cons _).trans List.perm_middle.symm

/-- `kmalloc` hands out an address that was not live. -/
theorem kmalloc_fresh (I : HeapInv lo hi s A) {size : ℕ} (h : (s.heap.kmalloc size).2 ≠ 0) :
    (s.heap.kmalloc size).2 ∉ s.live := by
  have := (I.kmalloc size).nodup
  dsimp only at this
  rw [if_neg h] at this
  exact (List.nodup_cons.1 this).1

theorem kfree (I : HeapInv lo hi s A) {ptr : ℕ} (hp : ptr ∈ s.live) :
    HeapInv lo hi ⟨s.heap.kfree ptr, s.live.erase ptr⟩ (A.step (.kfree ptr)) := by
  obtain ⟨u, b, v, hA, hb, rfl⟩ := I.mem_live hp
  rw [BlockHeap.step_free]
  refine ⟨(I.rep.kfree hA hb).1, ?_⟩
  have hlive := I.live
  rw [livePtrs, hA, usedBlks_append, usedBlks_cons_used hb, List.map_append, List.map_cons]
    at hlive
  have := (hlive.trans List.perm_middle).erase (b.addr + 12)
  rw [List.erase_cons_head, ← List.map_append, ← usedBlks_free I.rep.wf hA hb] at this
  exact this

theorem store (I : HeapInv lo hi s A) {addr ptr : ℕ} (val : ℕ) (h4 : addr % 4 = 0)
    (hptr : ptr ∈ s.live) (h1 : ptr ≤ addr)
    (h2 : addr < ptr + memoryChunkSize s.heap.mem (ptr - headerSize)) :
    HeapInv lo hi { s with heap := { s.heap with mem := s.heap.mem.set addr val } } A := by
  obtain ⟨u, b, v, hA, hb, rfl⟩ := I.mem_live hptr
  rw [headerSize, Nat.add_sub_cancel, size_of_layout I.rep.region I.rep.wf hA I.rep.layout] at h2
  exact ⟨I.rep.store hA hb val h4 h1 h2, I.live⟩

theorem step (I : HeapInv lo hi s A) {op : HeapOp} (h : s.step op = some s') :
    HeapInv lo hi s' (A.step op) := by
  rcases op with size | ptr | ⟨addr, val⟩
  · obtain ⟨-, rfl⟩ := HeapSys.step_kmalloc h
    exact I.kmalloc size
  · obtain ⟨hp, rfl⟩ := HeapSys.step_kfree h
    exact I.kfree hp
  · obtain ⟨h4, ⟨ptr, hptr, h1, h2⟩, rfl⟩ := HeapSys.step_store h
    rw [BlockHeap.step_write]
    exact I.store val h4 hptr h1 h2

/-- The blocks after a run. -/
theorem run : ∀ {ops : List HeapOp} {s s' : HeapSys} {A : BlockHeap}, HeapInv lo hi s A →
    s.run ops = some s' → HeapInv lo hi s' (ops.foldl BlockHeap.step A)
  | [], s, s', A, I, h => by
    cases h
    exact I
  | op :: ops, s, s', A, I, h => by
    simp only [HeapSys.run, Option.bind_eq_some_iff] at h
    obtain ⟨t, h1, h2⟩ := h
    exact (run (I.step h1) h2 :)

end HeapInv

theorem fresh_inv (m : Mem) {start stop : ℕ} (hr : KHeap.HeapRoom start stop) :
    HeapInv (KHeap.memStart start) (KHeap.memEnd start stop) (HeapSys.fresh start stop m)
      (initHeap (KHeap.memStart start) (KHeap.memEnd start stop)) :=
  ⟨(kheapInit_rep m hr).1, List.Perm.refl []⟩

end RTLKIM

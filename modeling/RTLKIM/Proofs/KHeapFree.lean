import RTLKIM.Proofs.KHeapRefine

/-!
# `kfree` refines `free`

`kfree` first joins the free chunk after the one given back (`mergeNext`), then joins the result
to the free chunk before it or makes it a free chunk of its own (`mergePrev`). Each is one edit of
the chunk ring and at most two of the free rings, and does to the blocks what `absorbNext` and
`release` do.
-/

namespace RTLKIM

namespace KHeap

variable (h : KHeap) (c p : ℕ)

theorem removeFree_globals : (h.removeFree c).globals = h.globals := rfl

theorem removeFree_kheapMemUsed : (h.removeFree c).kheapMemUsed = h.kheapMemUsed := rfl

theorem pushFree_globals : (h.pushFree c).globals = h.globals := rfl

theorem pushFree_kheapMemUsed : (h.pushFree c).kheapMemUsed = h.kheapMemUsed := rfl

end KHeap

namespace Rep

open BlockHeap

variable {lo hi : ℕ} {h g : KHeap} {A : BlockHeap} {u v : List Blk} {b : Blk}

/-- The counters are not part of the blocks. -/
theorem counters (R : Rep lo hi h A) (f u m : ℕ) :
    Rep lo hi { h with memFree := f, kheapMemUsed := u, memMeta := m } A :=
  ⟨R.region, R.globals, R.wf, R.layout, R.flags⟩

/-- `remove_free` of a free block. -/
theorem removeFree (R : Rep lo hi h A) (hA : A.blks = u ++ b :: v) (hb : b.used = false) :
    Layout (h.removeFree b.addr).mem (h.removeFree b.addr).freeChunk
        ((chunks lo hi A.blks).map Blk.addr) (eraseSlot A.slots b)
      ∧ (∀ a ∈ (chunks lo hi A.blks).map Blk.addr, (h.removeFree b.addr).mem (a + 8) = h.mem (a + 8))
      ∧ Ring 4 (h.removeFree b.addr).mem [b.addr + 12] ∧ ∀ n, b.addr ∉ eraseSlot A.slots b n := by
  have hmem : b ∈ A.blks := by simp [hA]
  have hin : b.addr ∈ A.slots (Nat.log 2 b.size) :=
    (R.wf.mem_slots _ _).2 ⟨b, hmem, rfl, hb, rfl⟩
  have heq : h.removeFree b.addr = { h.listRemoveFrom (Nat.log 2 b.size) b.addr with
      memFree := sub32 (h.listRemoveFrom (Nat.log 2 b.size) b.addr).memFree
        (sub32 b.size headerSize) } := by
    unfold KHeap.removeFree
    simp only [size_of_layout R.region R.wf hA R.layout, slot_of_size R.region R.wf hmem]
  obtain ⟨h1, h2, h3⟩ := R.layout.listRemoveFrom hin
  have hslots := R.wf.slots
  rw [hA] at hslots
  have herase := hslots.erase hb (R.wf.addr_ne hA)
  rw [heq]
  refine ⟨h1, h2, h3, fun n hn => ?_⟩
  obtain ⟨x, hx, hxa, -⟩ := (herase.1 n _).1 hn
  exact R.wf.addr_ne hA x hx hxa

/-- `push_free` of a block that is in no slot. -/
theorem pushFree {slots : ℕ → List ℕ} (Rg : Region lo hi) (W : A.Wf lo hi)
    (hA : A.blks = u ++ b :: v)
    (L : Layout g.mem g.freeChunk ((chunks lo hi A.blks).map Blk.addr) slots)
    (hfree : ∀ n, b.addr ∉ slots n) (hself : Ring 4 g.mem [b.addr + 12]) :
    Layout (g.pushFree b.addr).mem (g.pushFree b.addr).freeChunk
        ((chunks lo hi A.blks).map Blk.addr) (pushSlot slots b)
      ∧ ∀ a ∈ (chunks lo hi A.blks).map Blk.addr, (g.pushFree b.addr).mem (a + 8) = g.mem (a + 8) := by
  have hmem : b ∈ A.blks := by simp [hA]
  have hpos : b.addr ≠ 0 := by
    have := W.bounds hmem
    omega
  have heq : g.pushFree b.addr = { g.listPush (Nat.log 2 b.size) b.addr with
      memFree := add32 (g.listPush (Nat.log 2 b.size) b.addr).memFree (sub32 b.size headerSize) } := by
    unfold KHeap.pushFree
    simp only [size_of_layout Rg W hA L, slot_of_size Rg W hmem]
  obtain ⟨h1, h2, -⟩ := L.listPush (n := Nat.log 2 b.size) (addr_mem hA) hpos hfree hself
  rw [heq]
  exact ⟨h1, h2⟩

/-! ## The block after -/

theorem next_of_concat (R : Rep lo hi h A) (hA : A.blks = u ++ [b]) :
    h.mem b.addr = hi - 20 := by
  have hr := R.layout.ring
  rw [hA, addrs_split] at hr
  exact (Ring.link_of_split (v := []) hr).1

theorem next_of_cons {d : Blk} (R : Rep lo hi h A) (hA : A.blks = u ++ b :: d :: v) :
    h.mem b.addr = d.addr := by
  have hr := R.layout.ring
  rw [hA, addrs_split] at hr
  exact (Ring.link_of_split hr).1

theorem mergeNext (R : Rep lo hi h A) (hA : A.blks = u ++ b :: v) (hb : b.used = true) :
    Rep lo hi (h.mergeNext b.addr) (absorbNext A.slots u b v)
      ∧ (h.mergeNext b.addr).kheapMemUsed = h.kheapMemUsed := by
  have hsame : Rep lo hi h ⟨u ++ b :: v, A.slots⟩ := by
    rw [← hA]
    exact R
  have hwf := absorbNext_wf R.wf hA hb
  unfold absorbNext at hwf ⊢
  rcases v with _ | ⟨d, v⟩
  · have hflag := R.flags ⟨hi - 20, 8, true⟩ (by simp [chunks])
    have hid : h.mergeNext b.addr = h := by
      simp only [KHeap.mergeNext, R.next_of_concat hA]
      exact if_neg (by simp only [hflag]; decide)
    rw [hid]
    exact ⟨hsame, rfl⟩
  have hnext := R.next_of_cons hA
  have hflag := R.flags d (by rw [hA]; simp [chunks])
  simp only [] at hwf ⊢
  split_ifs at hwf ⊢ with hd
  · have hid : h.mergeNext b.addr = h := by
      simp only [KHeap.mergeNext, hnext]
      exact if_neg (by simp [hflag, hd])
    rw [hid]
    exact ⟨hsame, rfl⟩
  -- the chunk after is taken out of its free ring, then out of the chunk ring
  have hd' : d.used = false := by simpa using hd
  have hA' : A.blks = (u ++ [b]) ++ d :: v := by simp [hA]
  obtain ⟨h1, h2, -, h4⟩ := R.removeFree hA' hd'
  have heq : h.mergeNext b.addr = { h.removeFree d.addr with
      mem := remove (h.removeFree d.addr).mem d.addr
      memMeta := sub32 (h.removeFree d.addr).memMeta headerSize
      memFree := add32 (h.removeFree d.addr).memFree headerSize } := by
    simp only [KHeap.mergeNext, hnext]
    exact if_pos (by simp [hflag, hd'])
  have L := h1
  rw [hA', addrs_split] at L
  obtain ⟨k1, k2⟩ := L.removeChunk (by simp) h4
  have hin : ∀ x ∈ chunks lo hi A.blks, x.addr ∈ (lo :: (u ++ [b]).map Blk.addr) ++
      d.addr :: (v.map Blk.addr ++ [hi - 20]) := by
    intro x hx
    rw [← addrs_split, ← hA']
    exact List.mem_map_of_mem hx
  have hflags : ∀ x ∈ chunks lo hi A.blks,
      remove (h.removeFree d.addr).mem d.addr (x.addr + 8) = if x.used then 1 else 0 := by
    intro x hx
    rw [k2 x.addr (hin x hx) 8 (by simp), h2 x.addr (List.mem_map_of_mem hx)]
    exact R.flags x hx
  rw [heq]
  refine ⟨⟨R.region, R.globals, hwf, ?_, fun x hx => ?_⟩, KHeap.removeFree_kheapMemUsed h d.addr⟩
  · have e : (chunks lo hi (u ++ { b with size := b.size + 12 + d.size } :: v)).map Blk.addr
        = (lo :: (u ++ [b]).map Blk.addr) ++ (v.map Blk.addr ++ [hi - 20]) := by
      simp [chunks]
    rw [e]
    exact k1
  · rw [show u ++ { b with size := b.size + 12 + d.size } :: v
        = u ++ ([{ b with size := b.size + 12 + d.size }] ++ v) from rfl, mem_chunks_split] at hx
    rcases hx with hx | hx
    · rw [List.mem_singleton.1 hx]
      exact hflags b (by rw [hA]; simp [chunks])
    · refine hflags x ?_
      rw [hA, show u ++ b :: d :: v = u ++ ([b, d] ++ v) from rfl, mem_chunks_split]
      exact .inr hx

/-! ## The block before -/

theorem prev_of_nil (R : Rep lo hi h A) (hA : A.blks = b :: v) : h.mem (b.addr + 4) = lo := by
  have hr := R.layout.ring
  rw [hA, ← List.nil_append (b :: v), addrs_split] at hr
  exact (Ring.link_of_split (u := []) hr).2

theorem prev_of_concat {p : Blk} (R : Rep lo hi h A) (hA : A.blks = u ++ p :: b :: v) :
    h.mem (b.addr + 4) = p.addr := by
  have hr := R.layout.ring
  rw [hA, addrs_split] at hr
  exact (Ring.link_of_split hr).2

/-- A used block made free and pushed. -/
theorem freeBlock (R : Rep lo hi h A) (hA : A.blks = u ++ b :: v) (hb : b.used = true)
    (hwf : Wf lo hi ⟨u ++ { b with used := false } :: v, pushSlot A.slots b⟩) :
    Rep lo hi (({ h with mem := listInit (h.mem.set (b.addr + 8) 0) (b.addr + headerSize) } :
      KHeap).pushFree b.addr) ⟨u ++ { b with used := false } :: v, pushSlot A.slots b⟩ := by
  have hnot : ∀ n, b.addr ∉ A.slots n := by
    intro n hn
    obtain ⟨x, hx, h1, h2, -⟩ := (R.wf.mem_slots n _).1 hn
    rw [hA] at hx
    have hxb : x ≠ b := by
      rintro rfl
      rw [hb] at h2
      cases h2
    refine R.wf.addr_ne hA x ?_ h1
    simp only [List.mem_append, List.mem_cons] at hx ⊢
    tauto
  have hbm : b.addr ∈ (chunks lo hi A.blks).map Blk.addr := addr_mem hA
  obtain ⟨h1, h2⟩ := (R.layout.setFlag hbm 0).initFree hbm hnot
  obtain ⟨k1, k2⟩ := pushFree (g := { h with
    mem := listInit (h.mem.set (b.addr + 8) 0) (b.addr + 12) }) R.region R.wf hA h1 hnot
    (listInit_ring _ _)
  have hadr : (chunks lo hi (u ++ { b with used := false } :: v)).map Blk.addr
      = (chunks lo hi A.blks).map Blk.addr := by
    rw [hA]
    simp [chunks]
  refine ⟨R.region, R.globals, hwf, hadr ▸ k1, fun x hx => ?_⟩
  rw [show u ++ { b with used := false } :: v = u ++ ([{ b with used := false }] ++ v) from rfl,
    mem_chunks_split] at hx
  rcases hx with hx | hx
  · rw [List.mem_singleton.1 hx]
    exact (k2 _ hbm).trans ((h2 _ hbm).trans (Mem.set_self _ _ _))
  · have hxm : x.addr ∈ (chunks lo hi A.blks).map Blk.addr := by
      rw [hA, show u ++ b :: v = u ++ ([b] ++ v) from rfl]
      exact List.mem_map_of_mem (mem_chunks_split.2 (.inr hx))
    have hne : x.addr + 8 ≠ b.addr + 8 := fun e => R.chunk_addr_ne hA hx (Nat.add_right_cancel e)
    exact (k2 _ hxm).trans ((h2 _ hxm).trans
      ((Mem.set_of_ne _ _ hne).trans (R.flags_other hA x hx)))

/-- A used block joined to the free block `p` before it. -/
theorem joinPrev {p : Blk} (R : Rep lo hi h A) (hA : A.blks = u ++ p :: b :: v)
    (hb : b.used = true) (hp : p.used = false)
    (hwf : Wf lo hi ⟨u ++ { p with size := p.size + 12 + b.size } :: v,
      pushSlot (eraseSlot A.slots p) { p with size := p.size + 12 + b.size }⟩) :
    Rep lo hi (({ h.removeFree p.addr with mem := remove (h.removeFree p.addr).mem b.addr } :
      KHeap).pushFree p.addr) ⟨u ++ { p with size := p.size + 12 + b.size } :: v,
      pushSlot (eraseSlot A.slots p) { p with size := p.size + 12 + b.size }⟩ := by
  set q : Blk := { p with size := p.size + 12 + b.size } with hq
  obtain ⟨h1, h2, h3, h4⟩ := R.removeFree hA hp
  have hA' : A.blks = (u ++ [p]) ++ b :: v := by simp [hA]
  have hnot : ∀ n, b.addr ∉ eraseSlot A.slots p n := by
    intro n hn
    have hslots := R.wf.slots
    rw [hA] at hslots
    obtain ⟨x, hx, hx1, hx2, -⟩ := ((hslots.erase hp (R.wf.addr_ne hA)).1 n _).1 hn
    have hxb : x ≠ b := by
      rintro rfl
      rw [hb] at hx2
      cases hx2
    refine R.wf.addr_ne hA' x ?_ hx1
    simp only [List.mem_append, List.mem_cons] at hx ⊢
    tauto
  have L := h1
  rw [hA', addrs_split] at L
  obtain ⟨k1, k2⟩ := L.removeChunk (by simp) hnot
  have e : (chunks lo hi (u ++ q :: v)).map Blk.addr
      = (lo :: (u ++ [p]).map Blk.addr) ++ (v.map Blk.addr ++ [hi - 20]) := by
    simp [chunks, hq]
  rw [← e] at k1
  have hin : ∀ x ∈ chunks lo hi A.blks, x.addr ∈ (lo :: (u ++ [p]).map Blk.addr) ++
      b.addr :: (v.map Blk.addr ++ [hi - 20]) := by
    intro x hx
    rw [← addrs_split, ← hA']
    exact List.mem_map_of_mem hx
  have hpm : p ∈ chunks lo hi A.blks := by
    rw [hA]
    simp [chunks]
  have hself : Ring 4 (remove (h.removeFree p.addr).mem b.addr) [p.addr + 12] := by
    rw [Ring.singleton_iff] at h3 ⊢
    rw [k2 _ (hin p hpm) 12 (by simp), show p.addr + 12 + 4 = p.addr + 16 from rfl,
      k2 _ (hin p hpm) 16 (by simp)]
    exact h3
  obtain ⟨j1, j2⟩ := pushFree (b := q) (g := { h.removeFree p.addr with
    mem := remove (h.removeFree p.addr).mem b.addr }) R.region hwf rfl k1 h4 hself
  have hflags : ∀ x ∈ chunks lo hi A.blks,
      remove (h.removeFree p.addr).mem b.addr (x.addr + 8) = if x.used then 1 else 0 := by
    intro x hx
    rw [k2 x.addr (hin x hx) 8 (by simp), h2 x.addr (List.mem_map_of_mem hx)]
    exact R.flags x hx
  have hglob : (({ h.removeFree p.addr with mem := remove (h.removeFree p.addr).mem b.addr } :
      KHeap).pushFree p.addr).globals = (1, lo, hi - 20) :=
    (KHeap.pushFree_globals _ _).trans ((h.removeFree_globals p.addr).trans R.globals)
  refine ⟨R.region, hglob, hwf, j1, fun x hx => (j2 _ (List.mem_map_of_mem hx)).trans ?_⟩
  rw [show u ++ q :: v = u ++ ([q] ++ v) from rfl, mem_chunks_split] at hx
  rcases hx with hx | hx
  · rw [List.mem_singleton.1 hx]
    exact hflags p hpm
  · refine hflags x ?_
    rw [hA, show u ++ p :: b :: v = u ++ ([p, b] ++ v) from rfl, mem_chunks_split]
    exact .inr hx

theorem mergePrev (R : Rep lo hi h A) (hA : A.blks = u ++ b :: v) (hb : b.used = true)
    (hv : ∀ d ∈ v.head?, d.used = true) :
    Rep lo hi (h.mergePrev b.addr (h.mem (b.addr + 4))) (release A.slots u b v)
      ∧ (h.mergePrev b.addr (h.mem (b.addr + 4))).kheapMemUsed = h.kheapMemUsed := by
  have hwf := release_wf R.wf hA hb hv
  -- the block before is used: `b` becomes a free block
  have hown : (h.mem (h.mem (b.addr + 4) + 8) ≠ 0) →
      Wf lo hi ⟨u ++ { b with used := false } :: v, pushSlot A.slots b⟩ →
      Rep lo hi (h.mergePrev b.addr (h.mem (b.addr + 4)))
          ⟨u ++ { b with used := false } :: v, pushSlot A.slots b⟩
        ∧ (h.mergePrev b.addr (h.mem (b.addr + 4))).kheapMemUsed = h.kheapMemUsed := by
    intro hflag hwf
    unfold KHeap.mergePrev
    rw [if_neg hflag]
    exact ⟨R.freeBlock hA hb hwf, KHeap.pushFree_kheapMemUsed _ _⟩
  unfold release at hwf ⊢
  rcases List.eq_nil_or_concat u with rfl | ⟨u, p, rfl⟩
  · have hflag := R.flags ⟨lo, 8, true⟩ (by simp [chunks])
    refine hown ?_ hwf
    rw [R.prev_of_nil hA]
    simp only [hflag]
    decide
  rw [List.concat_eq_append] at *
  have hA' : A.blks = u ++ p :: b :: v := by simp [hA]
  have hflag := R.flags p (by rw [hA']; simp [chunks])
  have hprev := R.prev_of_concat hA'
  simp only [List.getLast?_concat, List.dropLast_concat] at hwf ⊢
  split_ifs at hwf ⊢ with hp
  · refine hown ?_ hwf
    rw [hprev, hflag, if_pos hp]
    decide
  · have hp' : p.used = false := by simpa using hp
    have hz : h.mem (p.addr + 8) = 0 := by rw [hflag, if_neg hp]
    rw [hprev]
    unfold KHeap.mergePrev
    rw [if_pos hz]
    have J := R.joinPrev hA' hb hp' hwf
    have hu : (({ h.removeFree p.addr with mem := remove (h.removeFree p.addr).mem b.addr } :
        KHeap).pushFree p.addr).kheapMemUsed = h.kheapMemUsed :=
      (KHeap.pushFree_kheapMemUsed _ _).trans (h.removeFree_kheapMemUsed p.addr)
    exact ⟨J.counters _ _ _, hu⟩

/-! ## `kfree` -/

theorem kfree (R : Rep lo hi h A) (hA : A.blks = u ++ b :: v) (hb : b.used = true) :
    Rep lo hi (h.kfree (b.addr + 12)) (A.free b.addr)
      ∧ (h.kfree (b.addr + 12)).kheapMemUsed = sub32 h.kheapMemUsed b.size := by
  have hinit : ¬ (h.init = 0 ∨ b.addr + 12 = 0) := by
    have : h.init = 1 := congrArg Prod.fst R.globals
    omega
  set g : KHeap := { h with kheapMemUsed := sub32 h.kheapMemUsed b.size } with hg
  have Rg : Rep lo hi g A := R.counters _ _ _
  have heq : h.kfree (b.addr + 12) = (g.mergeNext b.addr).mergePrev b.addr (h.mem (b.addr + 4)) := by
    unfold KHeap.kfree
    rw [if_neg hinit]
    simp only [headerSize, Nat.add_sub_cancel, size_of_layout R.region R.wf hA R.layout, hg]
  obtain ⟨R1, hu1⟩ := Rg.mergeNext hA hb
  obtain ⟨b', v', hA', haddr, hb', hv'⟩ := absorbNext_split R.wf hA hb
  have hprev : (g.mergeNext b.addr).mem (b.addr + 4) = h.mem (b.addr + 4) := by
    rcases List.eq_nil_or_concat u with hu | ⟨u', p, hu⟩
    · have := R1.prev_of_nil (b := b') (v := v') (by rw [hA', hu]; rfl)
      rw [haddr] at this
      rw [this, R.prev_of_nil (b := b) (v := v) (by rw [hA, hu]; rfl)]
    · rw [List.concat_eq_append] at hu
      have := R1.prev_of_concat (u := u') (p := p) (b := b') (v := v') (by rw [hA', hu]; simp)
      rw [haddr] at this
      rw [this, R.prev_of_concat (u := u') (p := p) (b := b) (v := v) (by rw [hA, hu]; simp)]
  have hfree : A.free b.addr = release (absorbNext A.slots u b v).slots u b' v' := by
    unfold free
    rw [onBlock_eq absorbNext R.wf hA, ← haddr, onBlock_eq release R1.wf hA']
  obtain ⟨R2, hu2⟩ := R1.mergePrev hA' hb' hv'
  rw [haddr, hprev, ← heq] at R2 hu2
  rw [hfree]
  exact ⟨R2, hu2.trans hu1⟩

end Rep

end RTLKIM

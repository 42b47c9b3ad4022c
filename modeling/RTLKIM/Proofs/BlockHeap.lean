import RTLKIM.BlockHeap

/-!
# The block heap keeps its shape

Each operation replaces a stretch of blocks by another that covers the same bytes, so the blocks
still tile the region (`chain_splice`); the slots follow the free blocks (`Slots`), one taken out
or put in at a time.
-/

namespace RTLKIM

/-- A stretch of a chain replaced by one that its neighbours accept in its place. -/
theorem chain_splice {α : Type*} {R : α → α → Prop} {u v k k' : List α} (a z a' z' : α)
    (h : List.IsChain R (u ++ (k ++ v))) (ha : k.head? = some a) (hz : k.getLast? = some z)
    (ha' : k'.head? = some a') (hz' : k'.getLast? = some z') (hk : List.IsChain R k')
    (hl : ∀ x ∈ u.getLast?, R x a → R x a') (hr : ∀ y ∈ v.head?, R z y → R z' y) :
    List.IsChain R (u ++ (k' ++ v)) := by
  obtain ⟨h1, h2, h3⟩ := List.isChain_append.1 h
  obtain ⟨-, h5, h6⟩ := List.isChain_append.1 h2
  refine List.isChain_append.2 ⟨h1, List.isChain_append.2 ⟨hk, h5, fun x hx y hy => ?_⟩,
    fun x hx y hy => ?_⟩
  · rw [hz'] at hx
    cases hx
    exact hr y hy (h6 z (by rw [hz]; rfl) y hy)
  · have : (k' ++ v).head? = some a' := by
      rcases k' with _ | ⟨b, k'⟩
      · simp at ha'
      · simpa using ha'
    rw [this] at hy
    cases hy
    refine hl x hx (h3 x hx a ?_)
    rcases k with _ | ⟨b, k⟩
    · simp at ha
    · simpa using ha

theorem chunks_append (lo hi : ℕ) (u k v : List Blk) :
    chunks lo hi (u ++ (k ++ v)) = (⟨lo, 8, true⟩ :: u) ++ (k ++ (v ++ [⟨hi - 20, 8, true⟩])) := by
  simp [chunks]

namespace BlockHeap

variable {lo hi : ℕ} {A : BlockHeap}

/-! ## Addresses -/

theorem Wf.pairwise (W : A.Wf lo hi) :
    (chunks lo hi A.blks).Pairwise fun a b => a.addr + 12 + a.size ≤ b.addr := by
  have : IsTrans Blk fun a b => a.addr + 12 + a.size ≤ b.addr :=
    ⟨fun a b c (h1 : _ ≤ _) (h2 : _ ≤ _) => by show _ ≤ _; omega⟩
  exact (W.tiles.imp fun a b (h : _ = _) => by omega).pairwise

theorem Wf.bounds (W : A.Wf lo hi) {b : Blk} (hb : b ∈ A.blks) :
    lo + 20 ≤ b.addr ∧ b.addr + 12 + b.size ≤ hi - 20 := by
  have h := W.pairwise
  rw [chunks, List.pairwise_cons, List.pairwise_append] at h
  exact ⟨h.1 b (List.mem_append_left _ hb), h.2.2.2 b hb _ List.mem_cons_self⟩

/-- Blocks with a common address are one. -/
theorem Wf.addr_ne (W : A.Wf lo hi) {u v : List Blk} {b : Blk} (h : A.blks = u ++ b :: v) :
    ∀ x ∈ u ++ v, x.addr ≠ b.addr := by
  have hp := W.pairwise
  rw [chunks, List.pairwise_cons, List.pairwise_append] at hp
  have hp := hp.2.1
  rw [h, List.pairwise_append, List.pairwise_cons] at hp
  intro x hx
  rcases List.mem_append.1 hx with hx | hx
  · have := hp.2.2 x hx b (by simp)
    omega
  · have := hp.2.1.1 x hx
    omega

theorem before_onward {l u v : List Blk} {b : Blk} (h : l = u ++ b :: v)
    (hu : ∀ x ∈ u, x.addr ≠ b.addr) : before l b.addr = u ∧ onward l b.addr = b :: v := by
  subst h
  have hu' : ∀ x ∈ u, decide (x.addr ≠ b.addr) = true := fun x hx => by simpa using hu x hx
  unfold before onward
  rw [List.takeWhile_append_of_pos hu', List.dropWhile_append_of_pos hu']
  simp

theorem onBlock_eq (f : (ℕ → List ℕ) → List Blk → Blk → List Blk → BlockHeap) (W : A.Wf lo hi)
    {u v : List Blk} {b : Blk} (h : A.blks = u ++ b :: v) :
    onBlock f A b.addr = f A.slots u b v := by
  obtain ⟨h1, h2⟩ := before_onward h fun x hx => W.addr_ne h x (List.mem_append_left _ hx)
  simp only [onBlock, h1, h2]

theorem alloc_of_none {size : ℕ}
    (h : KHeap.findSlot (fun n => (A.slots n).headD 0) (KHeap.roundSize size) = none) :
    A.alloc size = none := by
  rw [alloc, h, Option.bind_none]

theorem alloc_of_some (W : A.Wf lo hi) {size n : ℕ} {l : List ℕ} {u v : List Blk} {b : Blk}
    (h : KHeap.findSlot (fun n => (A.slots n).headD 0) (KHeap.roundSize size) = some n)
    (hs : A.slots n = b.addr :: l) (hA : A.blks = u ++ b :: v) :
    A.alloc size = some (carve (Function.update A.slots n l) u b v (KHeap.roundSize size),
      b.addr + 12) := by
  obtain ⟨h1, h2⟩ := before_onward hA fun x hx => W.addr_ne hA x (List.mem_append_left _ hx)
  rw [alloc, h, Option.bind_some]
  simp only [allocAt, hs, h1, h2]

/-! ## Slots -/

/-- The slots hold the free blocks of `l`, by the logarithm of their size. -/
def Slots (l : List Blk) (slots : ℕ → List ℕ) : Prop :=
  (∀ n a, a ∈ slots n ↔ ∃ b ∈ l, b.addr = a ∧ b.used = false ∧ Nat.log 2 b.size = n)
    ∧ ∀ n, (slots n).Nodup

section Slots

variable {slots : ℕ → List ℕ} {u v : List Blk} {b : Blk}

theorem Slots.used_iff (hb : b.used = true) : Slots (u ++ b :: v) slots ↔ Slots (u ++ v) slots := by
  have : ∀ n a, (∃ x ∈ u ++ b :: v, x.addr = a ∧ x.used = false ∧ Nat.log 2 x.size = n) ↔
      ∃ x ∈ u ++ v, x.addr = a ∧ x.used = false ∧ Nat.log 2 x.size = n := by
    intro n a
    constructor
    · rintro ⟨x, hx, h1, h2, h3⟩
      refine ⟨x, ?_, h1, h2, h3⟩
      simp only [List.mem_append, List.mem_cons] at hx ⊢
      rcases hx with hx | rfl | hx
      · exact .inl hx
      · rw [hb] at h2; cases h2
      · exact .inr hx
    · rintro ⟨x, hx, h⟩
      refine ⟨x, ?_, h⟩
      simp only [List.mem_append, List.mem_cons] at hx ⊢
      tauto
  simp only [Slots, this]

theorem Slots.erase (hs : Slots (u ++ b :: v) slots) (hb : b.used = false)
    (hne : ∀ x ∈ u ++ v, x.addr ≠ b.addr) : Slots (u ++ v) (eraseSlot slots b) := by
  refine ⟨fun n a => ?_, fun n => ?_⟩
  · have key : (a ∈ slots n ∧ a ≠ b.addr) ↔
        ∃ x ∈ u ++ v, x.addr = a ∧ x.used = false ∧ Nat.log 2 x.size = n := by
      rw [hs.1]
      constructor
      · rintro ⟨⟨x, hx, rfl, h2, h3⟩, hab⟩
        refine ⟨x, ?_, rfl, h2, h3⟩
        simp only [List.mem_append, List.mem_cons] at hx ⊢
        rcases hx with hx | rfl | hx
        · exact .inl hx
        · exact absurd rfl hab
        · exact .inr hx
      · rintro ⟨x, hx, rfl, h2, h3⟩
        refine ⟨⟨x, ?_, rfl, h2, h3⟩, hne x hx⟩
        simp only [List.mem_append, List.mem_cons] at hx ⊢
        tauto
    rw [← key]
    unfold eraseSlot
    by_cases hn : n = Nat.log 2 b.size
    · subst hn
      rw [Function.update_self, (hs.2 _).mem_erase_iff, and_comm]
    · rw [Function.update_of_ne hn]
      refine ⟨fun h => ⟨h, ?_⟩, fun h => h.1⟩
      rintro rfl
      obtain ⟨x, hx, h1, -, h3⟩ := (hs.1 n _).1 h
      simp only [List.mem_append, List.mem_cons] at hx
      rcases hx with hx | rfl | hx
      · exact hne x (List.mem_append_left _ hx) h1
      · exact hn h3.symm
      · exact hne x (List.mem_append_right _ hx) h1
  · unfold eraseSlot
    by_cases hn : n = Nat.log 2 b.size
    · subst hn
      rw [Function.update_self]
      exact (hs.2 _).erase _
    · rw [Function.update_of_ne hn]
      exact hs.2 n

theorem Slots.push (hs : Slots (u ++ v) slots) (hb : b.used = false)
    (hne : ∀ x ∈ u ++ v, x.addr ≠ b.addr) : Slots (u ++ b :: v) (pushSlot slots b) := by
  refine ⟨fun n a => ?_, fun n => ?_⟩
  · have key : (∃ x ∈ u ++ b :: v, x.addr = a ∧ x.used = false ∧ Nat.log 2 x.size = n) ↔
        a ∈ slots n ∨ (a = b.addr ∧ Nat.log 2 b.size = n) := by
      rw [hs.1]
      constructor
      · rintro ⟨x, hx, rfl, h2, h3⟩
        simp only [List.mem_append, List.mem_cons] at hx
        rcases hx with hx | rfl | hx
        · exact .inl ⟨x, List.mem_append_left _ hx, rfl, h2, h3⟩
        · exact .inr ⟨rfl, h3⟩
        · exact .inl ⟨x, List.mem_append_right _ hx, rfl, h2, h3⟩
      · rintro (⟨x, hx, h⟩ | ⟨rfl, h⟩)
        · refine ⟨x, ?_, h⟩
          simp only [List.mem_append, List.mem_cons] at hx ⊢
          tauto
        · exact ⟨b, by simp, rfl, hb, h⟩
    rw [key]
    unfold pushSlot
    by_cases hn : n = Nat.log 2 b.size
    · subst hn
      rw [Function.update_self, List.mem_cons]
      tauto
    · rw [Function.update_of_ne hn]
      constructor
      · exact .inl
      · rintro (h | ⟨-, h⟩)
        · exact h
        · exact absurd h.symm hn
  · unfold pushSlot
    by_cases hn : n = Nat.log 2 b.size
    · subst hn
      rw [Function.update_self, List.nodup_cons]
      refine ⟨fun h => ?_, hs.2 _⟩
      obtain ⟨x, hx, h1, -, -⟩ := (hs.1 _ _).1 h
      exact hne x hx h1
    · rw [Function.update_of_ne hn]
      exact hs.2 n

end Slots

theorem Wf.slots (W : A.Wf lo hi) : Slots A.blks A.slots := ⟨W.mem_slots, W.nodup⟩

/-! ## The operations -/

/-- A slot whose first block is taken. -/
theorem eraseSlot_head {slots : ℕ → List ℕ} {b : Blk} {n : ℕ} {l : List ℕ}
    (h : slots n = b.addr :: l) (hn : Nat.log 2 b.size = n) :
    Function.update slots n l = eraseSlot slots b := by
  subst hn
  simp [eraseSlot, h]

/-- The shape of a heap with the stretch `k` of its blocks replaced by `k'`, which covers the same
bytes and is not free beside a free block. -/
theorem wf_replace (W : A.Wf lo hi) {u v : List Blk} (k k' : List Blk) (a z a' z' : Blk)
    {slots : ℕ → List ℕ} (hA : A.blks = u ++ (k ++ v)) (ha : k.head? = some a)
    (hz : k.getLast? = some z) (ha' : k'.head? = some a') (hz' : k'.getLast? = some z')
    (hadj : List.IsChain Adj k') (hused : List.IsChain (fun a b => a.used ∨ b.used) k')
    (haddr : a'.addr = a.addr) (hend : z'.addr + z'.size = z.addr + z.size)
    (hl : ∀ x ∈ u.getLast?, x.used ∨ a.used → x.used ∨ a'.used)
    (hr : ∀ y ∈ v.head?, z.used ∨ y.used → z'.used ∨ y.used)
    (hfit : ∀ x ∈ k', 8 ≤ x.size ∧ x.addr % 4 = 0) (hs : Slots (u ++ (k' ++ v)) slots) :
    Wf lo hi ⟨u ++ (k' ++ v), slots⟩ := by
  have htiles := W.tiles
  have hco := W.coalesced
  have hf := W.fit
  rw [hA] at hf hco htiles
  rw [chunks_append] at htiles
  refine ⟨?_, chain_splice a z a' z' hco ha hz ha' hz' hused hl hr, ?_, hs.1, hs.2⟩
  · rw [chunks_append]
    refine chain_splice a z a' z' htiles ha hz ha' hz' hadj (fun x _ h => ?_) fun y _ h => ?_
    · rw [Adj] at h ⊢
      omega
    · rw [Adj] at h ⊢
      omega
  · intro x hx
    simp only [List.mem_append] at hx
    rcases hx with hx | hx | hx
    · exact hf x (by simp [hx])
    · exact hfit x hx
    · exact hf x (by simp [hx])

/-- A block and the one after it tile. -/
theorem Wf.adj (W : A.Wf lo hi) {u v : List Blk} {b d : Blk} (hA : A.blks = u ++ b :: d :: v) :
    b.addr + 12 + b.size = d.addr := by
  have := W.tiles
  rw [hA, show u ++ b :: d :: v = u ++ ([b, d] ++ v) from rfl, chunks_append] at this
  have := (List.isChain_append.1 this).2.1
  rw [List.cons_append, List.cons_append, List.isChain_cons_cons] at this
  exact this.1

section Ops

variable {u v : List Blk} {b : Blk} (W : A.Wf lo hi) (hA : A.blks = u ++ b :: v)

include W hA

theorem rest_addr_ne {r : ℕ} (hsz : r + 20 ≤ b.size) :
    ∀ x ∈ (u ++ [⟨b.addr, r, true⟩]) ++ v, x.addr ≠ (rest b r).addr := by
  have hpw := W.pairwise
  rw [hA, chunks, List.pairwise_cons, List.pairwise_append] at hpw
  have hp := hpw.2.1
  rw [List.pairwise_append, List.pairwise_cons] at hp
  intro x hx
  simp only [List.mem_append, List.mem_singleton] at hx
  simp only [rest]
  rcases hx with (hx | rfl) | hx
  · have := hp.2.2 x hx b (by simp)
    omega
  · show b.addr ≠ _
    omega
  · have := hp.2.1.1 x hx
    omega

theorem carve_wf {r : ℕ} (hb : b.used = false) (hr : 8 ≤ r) (hr4 : r % 4 = 0) :
    (carve (eraseSlot A.slots b) u b v r).Wf lo hi := by
  have hslots := W.slots
  rw [hA] at hslots
  have hs : Slots (u ++ v) (eraseSlot A.slots b) := hslots.erase hb (W.addr_ne hA)
  have hf := W.fit b (by simp [hA])
  unfold carve
  split_ifs with hsz
  · refine wf_replace W [b] [⟨b.addr, r, true⟩, rest b r] b b ⟨b.addr, r, true⟩ (rest b r) hA
      rfl rfl rfl rfl (by simp [Adj, rest]) (by simp) rfl ?_ (by simp) (by simp [hb, rest]) ?_ ?_
    · simp only [rest]
      omega
    · simp only [List.mem_cons, List.not_mem_nil, or_false, forall_eq_or_imp, forall_eq, rest]
      omega
    · rw [show u ++ ([⟨b.addr, r, true⟩, rest b r] ++ v)
        = (u ++ [⟨b.addr, r, true⟩]) ++ rest b r :: v by simp]
      refine Slots.push ?_ rfl (rest_addr_ne W hA hsz)
      rw [List.append_assoc, List.singleton_append]
      exact (Slots.used_iff rfl).2 hs
  · exact wf_replace W [b] [{ b with used := true }] b b { b with used := true }
      { b with used := true } hA rfl rfl rfl rfl (by simp) (by simp) rfl rfl (by simp) (by simp)
      (by simpa using hf) ((Slots.used_iff rfl).2 hs)

theorem absorbNext_wf (hb : b.used = true) : (absorbNext A.slots u b v).Wf lo hi := by
  have hself : Wf lo hi ⟨u ++ b :: v, A.slots⟩ := by
    rw [← hA]
    exact W
  unfold absorbNext
  rcases v with _ | ⟨d, v⟩
  · exact hself
  simp only []
  split_ifs with hd
  · exact hself
  have hd' : d.used = false := by simpa using hd
  have hslots := W.slots
  have hA' : A.blks = (u ++ [b]) ++ d :: v := by simp [hA]
  rw [hA'] at hslots
  have hs : Slots (u ++ b :: v) (eraseSlot A.slots d) := by
    have := hslots.erase hd' (W.addr_ne hA')
    rwa [List.append_assoc] at this
  have htile := W.adj hA
  have hf := W.fit b (by simp [hA])
  refine wf_replace W [b, d] [{ b with size := b.size + 12 + d.size }] b d
    { b with size := b.size + 12 + d.size } { b with size := b.size + 12 + d.size } hA
    rfl rfl rfl rfl (by simp) (by simp) rfl ?_ (by simp) (by simp [hb]) ?_
    ((Slots.used_iff (b := { b with size := b.size + 12 + d.size }) hb).2
      ((Slots.used_iff hb).1 hs))
  · show b.addr + (b.size + 12 + d.size) = _
    omega
  · simp only [List.mem_singleton, forall_eq]
    omega

/-- What is left around `b` once it took the free block after it. -/
theorem absorbNext_split (hb : b.used = true) :
    ∃ b' v', (absorbNext A.slots u b v).blks = u ++ b' :: v'
    ∧ b'.addr = b.addr ∧ b'.used = true ∧ ∀ d ∈ v'.head?, d.used = true := by
  unfold absorbNext
  rcases v with _ | ⟨d, v⟩
  · exact ⟨b, [], rfl, rfl, hb, by simp⟩
  simp only []
  split_ifs with hd
  · exact ⟨b, d :: v, rfl, rfl, hb, by simpa using hd⟩
  refine ⟨_, v, rfl, rfl, hb, fun e he => ?_⟩
  have hco := W.coalesced
  rw [hA, show u ++ b :: d :: v = (u ++ [b, d]) ++ v by simp, List.isChain_append] at hco
  have := hco.2.2 d (by simp) e he
  simpa [hd] using this

theorem release_wf (hb : b.used = true) (hv : ∀ d ∈ v.head?, d.used = true) :
    (release A.slots u b v).Wf lo hi := by
  have hslots := W.slots
  rw [hA, Slots.used_iff hb] at hslots
  have hf := W.fit b (by simp [hA])
  have hne := W.addr_ne hA
  -- the block becomes free between used neighbours
  have hfree : (∀ x ∈ u.getLast?, x.used = true) →
      Wf lo hi ⟨u ++ { b with used := false } :: v, pushSlot A.slots b⟩ := by
    intro hu
    refine wf_replace W [b] [{ b with used := false }] b b { b with used := false }
      { b with used := false } hA rfl rfl rfl rfl (by simp) (by simp) rfl rfl
      (fun x hx _ => .inl (hu x hx)) (fun y hy _ => .inr (hv y hy)) (by simpa using hf) ?_
    exact Slots.push (b := { b with used := false }) hslots rfl hne
  unfold release
  rcases List.eq_nil_or_concat u with rfl | ⟨u, p, rfl⟩
  · exact hfree (by simp)
  rw [List.concat_eq_append] at *
  simp only [List.getLast?_concat, List.dropLast_concat]
  split_ifs with hp
  · exact hfree (by simp [hp])
  have hp' : p.used = false := by simpa using hp
  have hA' : A.blks = u ++ p :: b :: v := by simp [hA]
  have htile := W.adj hA'
  have hfp := W.fit p (by simp [hA'])
  have hpne := W.addr_ne hA'
  rw [List.append_assoc, List.singleton_append] at hslots
  have hs := hslots.erase hp' fun x hx => hpne x (by
    simp only [List.mem_append, List.mem_cons] at hx ⊢
    tauto)
  have hup : ∀ x ∈ u.getLast?, x.used = true := by
    intro x hx
    have := W.coalesced
    rw [hA', List.isChain_append] at this
    have := this.2.2 x hx p (by simp)
    simpa [hp'] using this
  refine wf_replace W [p, b] [{ p with size := p.size + 12 + b.size }] p b
    { p with size := p.size + 12 + b.size } { p with size := p.size + 12 + b.size } hA'
    rfl rfl rfl rfl (by simp) (by simp) rfl ?_ (fun x hx _ => .inl (hup x hx))
    (fun y hy _ => .inr (hv y hy)) ?_ ?_
  · show p.addr + (p.size + 12 + b.size) = _
    omega
  · simp only [List.mem_singleton, forall_eq]
    omega
  · refine Slots.push hs hp' fun x hx => hpne x ?_
    simp only [List.mem_append, List.mem_cons] at hx ⊢
    tauto

end Ops

/-! ## The used blocks -/

/-- The used blocks of `l`. -/
def usedBlks (l : List Blk) : List Blk := l.filter (·.used)

theorem usedBlks_append (l l' : List Blk) : usedBlks (l ++ l') = usedBlks l ++ usedBlks l' :=
  List.filter_append _ _

theorem usedBlks_cons_used {b : Blk} (hb : b.used = true) (l : List Blk) :
    usedBlks (b :: l) = b :: usedBlks l := by
  simp [usedBlks, hb]

theorem usedBlks_cons_free {b : Blk} (hb : b.used = false) (l : List Blk) :
    usedBlks (b :: l) = usedBlks l := by
  simp [usedBlks, hb]

theorem mem_usedBlks {b : Blk} {l : List Blk} : b ∈ usedBlks l ↔ b ∈ l ∧ b.used = true := by
  simp [usedBlks]

theorem usedBlks_carve (slots : ℕ → List ℕ) (u v : List Blk) (b : Blk) (r : ℕ) :
    usedBlks (carve slots u b v r).blks
      = usedBlks u ++ ⟨b.addr, if r + 20 ≤ b.size then r else b.size, true⟩ :: usedBlks v := by
  unfold carve
  split_ifs with hsz
  · show usedBlks (u ++ ⟨b.addr, r, true⟩ :: rest b r :: v) = _
    rw [usedBlks_append, usedBlks_cons_used rfl, usedBlks_cons_free rfl]
  · show usedBlks (u ++ ⟨b.addr, b.size, true⟩ :: v) = _
    rw [usedBlks_append, usedBlks_cons_used rfl]

/-- The used blocks but the one that grew. -/
theorem usedBlks_absorbNext {slots : ℕ → List ℕ} {u v v' : List Blk} {b b' : Blk}
    (h : (absorbNext slots u b v).blks = u ++ b' :: v') :
    usedBlks u ++ usedBlks v' = usedBlks u ++ usedBlks v := by
  unfold absorbNext at h
  rcases v with _ | ⟨d, v⟩
  · have := List.append_cancel_left h
    simp only [List.cons.injEq] at this
    rw [this.2]
  · simp only [] at h
    split_ifs at h with hd
    · have := List.append_cancel_left h
      simp only [List.cons.injEq] at this
      rw [this.2]
    · have := List.append_cancel_left h
      simp only [List.cons.injEq] at this
      rw [← this.2, usedBlks_cons_free (by simpa using hd)]

theorem usedBlks_release (slots : ℕ → List ℕ) (u v : List Blk) (b : Blk) :
    usedBlks (release slots u b v).blks = usedBlks u ++ usedBlks v := by
  unfold release
  rcases List.eq_nil_or_concat u with rfl | ⟨u, p, rfl⟩
  · exact usedBlks_cons_free rfl v
  rw [List.concat_eq_append]
  simp only [List.getLast?_concat, List.dropLast_concat]
  split_ifs with hp
  · show usedBlks (u ++ [p] ++ { b with used := false } :: v) = _
    rw [usedBlks_append, usedBlks_cons_free rfl]
  · have hp' : p.used = false := by simpa using hp
    show usedBlks (u ++ { p with size := p.size + 12 + b.size } :: v) = _
    rw [usedBlks_append, usedBlks_append,
      usedBlks_cons_free (b := { p with size := p.size + 12 + b.size }) hp', usedBlks_cons_free hp']
    simp [usedBlks]

theorem usedBlks_free (W : A.Wf lo hi) {u v : List Blk} {b : Blk} (hA : A.blks = u ++ b :: v)
    (hb : b.used = true) : usedBlks (A.free b.addr).blks = usedBlks u ++ usedBlks v := by
  obtain ⟨b', v', hA', haddr, -, -⟩ := absorbNext_split W hA hb
  have W' := absorbNext_wf W hA hb
  unfold free
  rw [onBlock_eq absorbNext W hA, ← haddr, onBlock_eq release W' hA', usedBlks_release]
  exact usedBlks_absorbNext hA'

end BlockHeap

end RTLKIM

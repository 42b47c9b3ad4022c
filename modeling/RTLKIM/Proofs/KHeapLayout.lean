import RTLKIM.Proofs.KHeapList

/-!
# The chunk ring and the free rings together

`Layout` says where the link words of a heap are: the `all` ring goes through the chunks `addrs`,
and `free_chunk[n]` heads the ring of the `free` words of `slots n`. Chunks are `20` bytes apart,
so a word of one ring is never a word of another, nor a `used` flag, and an operation on one ring
leaves the rest where it was.
-/

namespace RTLKIM

/-- The chunks do not overlap. -/
def Sep (addrs : List ℕ) : Prop := ∀ a ∈ addrs, ∀ b ∈ addrs, a + 20 ≤ b ∨ b + 20 ≤ a ∨ a = b

/-- The addresses of the `free` words of the chunks `l`. -/
def frees (l : List ℕ) : List ℕ := l.map (· + 12)

@[simp] theorem frees_nil : frees [] = [] := rfl

@[simp] theorem frees_cons (a : ℕ) (l : List ℕ) : frees (a :: l) = (a + 12) :: frees l := rfl

theorem frees_append (l l' : List ℕ) : frees (l ++ l') = frees l ++ frees l' := by simp [frees]

theorem mem_frees {l : List ℕ} {x : ℕ} : x ∈ frees l ↔ ∃ a ∈ l, x = a + 12 := by
  simp [frees, eq_comm]

theorem frees_nodup {l : List ℕ} (h : l.Nodup) : (frees l).Nodup :=
  h.map fun _ _ e => Nat.add_right_cancel e

structure Layout (m : Mem) (fc : ℕ → ℕ) (addrs : List ℕ) (slots : ℕ → List ℕ) : Prop where
  ring : Ring 4 m addrs
  heads : ∀ n, fc n = (slots n).headD 0
  rings : ∀ n, Ring 4 m (frees (slots n))
  sub : ∀ n, ∀ a ∈ slots n, a ∈ addrs
  disj : ∀ n n' a, a ∈ slots n → a ∈ slots n' → n = n'
  pos : ∀ n, ∀ a ∈ slots n, a ≠ 0
  nodup : addrs.Nodup
  nodup_slots : ∀ n, (slots n).Nodup
  sep : Sep addrs

/-! ## Words of different kinds -/

section Words

variable {addrs l l' : List ℕ} (hs : Sep addrs)

include hs

theorem Sep.spaced : Spaced 4 addrs := by
  intro x hx y hy e
  have := hs x hx y hy
  omega

theorem Sep.spaced_frees (hl : ∀ a ∈ l, a ∈ addrs) : Spaced 4 (frees l) := by
  intro x hx y hy e
  obtain ⟨a, ha, rfl⟩ := mem_frees.1 hx
  obtain ⟨b, hb, rfl⟩ := mem_frees.1 hy
  have := hs a (hl a ha) b (hl b hb)
  omega

theorem Sep.all_free (hl : ∀ a ∈ l, a ∈ addrs) {x : ℕ} (hx : x ∈ cells 4 addrs) :
    x ∉ cells 4 (frees l) := by
  intro hx'
  obtain ⟨b, hb, hxb⟩ : ∃ b ∈ l, x = b + 12 ∨ x = b + 16 := by
    rcases hx' with h | ⟨y, h, rfl⟩
    · obtain ⟨b, hb, rfl⟩ := mem_frees.1 h
      exact ⟨b, hb, .inl rfl⟩
    · obtain ⟨b, hb, rfl⟩ := mem_frees.1 h
      exact ⟨b, hb, .inr rfl⟩
  obtain ⟨a, ha, hxa⟩ : ∃ a ∈ addrs, x = a ∨ x = a + 4 := by
    rcases hx with h | ⟨y, h, rfl⟩
    · exact ⟨x, h, .inl rfl⟩
    · exact ⟨y, h, .inr rfl⟩
  have := hs a ha b (hl b hb)
  omega

theorem Sep.free_free (hl : ∀ a ∈ l, a ∈ addrs) (hl' : ∀ a ∈ l', a ∈ addrs)
    (hd : ∀ a ∈ l, a ∉ l') {x : ℕ} (hx : x ∈ cells 4 (frees l)) : x ∉ cells 4 (frees l') := by
  intro hx'
  have key : ∀ {k : List ℕ}, x ∈ cells 4 (frees k) → ∃ b ∈ k, x = b + 12 ∨ x = b + 16 := by
    intro k h
    rcases h with h | ⟨y, h, rfl⟩
    · obtain ⟨b, hb, rfl⟩ := mem_frees.1 h
      exact ⟨b, hb, .inl rfl⟩
    · obtain ⟨b, hb, rfl⟩ := mem_frees.1 h
      exact ⟨b, hb, .inr rfl⟩
  obtain ⟨a, ha, hxa⟩ := key hx
  obtain ⟨b, hb, hxb⟩ := key hx'
  have := hs a (hl a ha) b (hl' b hb)
  obtain rfl : a = b := by omega
  exact hd a ha hb

theorem Sep.flag_free (hl : ∀ a ∈ l, a ∈ addrs) {a : ℕ} (ha : a ∈ addrs) :
    a + 8 ∉ cells 4 (frees l) := by
  intro hx
  obtain ⟨b, hb, hxb⟩ : ∃ b ∈ l, a + 8 = b + 12 ∨ a + 8 = b + 16 := by
    rcases hx with h | ⟨y, h, e⟩
    · obtain ⟨b, hb, e⟩ := mem_frees.1 h
      exact ⟨b, hb, .inl e⟩
    · obtain ⟨b, hb, rfl⟩ := mem_frees.1 h
      exact ⟨b, hb, .inr e⟩
  have := hs a ha b (hl b hb)
  omega

theorem Sep.payload_all {a i : ℕ} (ha : a ∈ addrs) (hi : i ∈ [8, 12, 16]) :
    a + i ∉ cells 4 addrs := by
  simp only [List.mem_cons, List.not_mem_nil, or_false] at hi
  rintro (h | ⟨b, hb, e⟩)
  · have := hs a ha _ h
    omega
  · have := hs a ha b hb
    omega

theorem Sep.flag_all {a : ℕ} (ha : a ∈ addrs) : a + 8 ∉ cells 4 addrs :=
  hs.payload_all ha (by simp)

theorem Sep.cons {d : ℕ} (hd : ∀ a ∈ addrs, a + 20 ≤ d ∨ d + 20 ≤ a) : Sep (d :: addrs) := by
  intro a ha b hb
  rcases List.mem_cons.1 ha with ha | ha <;> rcases List.mem_cons.1 hb with hb | hb
  · omega
  · have := hd b hb
    omega
  · have := hd a ha
    omega
  · exact hs a ha b hb

end Words

/-! ## The operations on the layout -/

namespace Layout

variable {h : KHeap} {addrs : List ℕ} {slots : ℕ → List ℕ}

/-- Writing where no ring and no flag is keeps the layout. -/
theorem write {m m' : Mem} {fc : ℕ → ℕ} (L : Layout m fc addrs slots)
    (ha : ∀ x ∈ cells 4 addrs, m' x = m x)
    (hf : ∀ n, ∀ x ∈ cells 4 (frees (slots n)), m' x = m x) : Layout m' fc addrs slots :=
  { L with ring := L.ring.congr ha, rings := fun n => (L.rings n).congr (hf n) }

/-- An operation on the free ring of slot `n` that leaves `l` in it. -/
theorem update_slot {m m' : Mem} {fc : ℕ → ℕ} (L : Layout m fc addrs slots) {n : ℕ} {l k : List ℕ}
    (hk : ∀ a ∈ k, a ∈ addrs) (hlk : ∀ a ∈ l, a ∈ k) (hkn : ∀ n', n' ≠ n → ∀ a ∈ slots n', a ∉ k)
    (hfr : ∀ x, x ∉ cells 4 (frees k) → m' x = m x) (hl : Ring 4 m' (frees l)) (hnd : l.Nodup)
    (hpos : ∀ a ∈ l, a ≠ 0) :
    Layout m' (Function.update fc n (l.headD 0)) addrs (Function.update slots n l)
      ∧ ∀ a ∈ addrs, m' (a + 8) = m (a + 8) := by
  refine ⟨⟨L.ring.congr fun x hx => hfr x (L.sep.all_free hk hx), fun n' => ?_, fun n' => ?_,
    fun n' a => ?_, fun n₁ n₂ a => ?_, fun n' a => ?_, L.nodup, fun n' => ?_, L.sep⟩,
    fun a ha => hfr _ (L.sep.flag_free hk ha)⟩
  · by_cases hn : n' = n
    · subst hn; simp
    · simp [hn, L.heads]
  · by_cases hn : n' = n
    · subst hn; simpa using hl
    · rw [Function.update_of_ne hn]
      exact (L.rings n').congr fun x hx =>
        hfr x (L.sep.free_free (L.sub n') hk (fun a ha => hkn n' hn a ha) hx)
  · by_cases hn : n' = n
    · subst hn
      rw [Function.update_self]
      exact fun h => hk a (hlk a h)
    · rw [Function.update_of_ne hn]
      exact L.sub n' a
  · by_cases h1 : n₁ = n <;> by_cases h2 : n₂ = n
    · intro _ _; rw [h1, h2]
    · subst h1
      rw [Function.update_self, Function.update_of_ne h2]
      exact fun ha hb => absurd (hlk a ha) (hkn n₂ h2 a hb)
    · subst h2
      rw [Function.update_self, Function.update_of_ne h1]
      exact fun ha hb => absurd (hlk a hb) (hkn n₁ h1 a ha)
    · rw [Function.update_of_ne h1, Function.update_of_ne h2]
      exact L.disj n₁ n₂ a
  · by_cases hn : n' = n
    · subst hn
      rw [Function.update_self]
      exact hpos a
    · rw [Function.update_of_ne hn]
      exact L.pos n' a
  · by_cases hn : n' = n
    · subst hn; simpa using hnd
    · simpa [hn] using L.nodup_slots n'

theorem other_slot {m : Mem} {fc : ℕ → ℕ} (L : Layout m fc addrs slots) {n : ℕ} :
    ∀ n', n' ≠ n → ∀ a ∈ slots n', a ∉ slots n :=
  fun n' hn a ha ha' => hn (L.disj n' n a ha ha')

theorem removeAt_ring {m : Mem} {fc : ℕ → ℕ} (L : Layout m fc addrs slots) {n c : ℕ}
    {u v : List ℕ} (hc : slots n = u ++ c :: v) :
    Ring 4 (remove m (c + 12)) (frees (u ++ v)) ∧
      ∀ x, x ∉ cells 4 (frees (slots n)) → remove m (c + 12) x = m x := by
  have hr := L.rings n
  have hnd := frees_nodup (L.nodup_slots n)
  have hsp := L.sep.spaced_frees (L.sub n)
  have hp : (slots n).Perm (c :: (v ++ u)) := by
    rw [hc]
    exact List.perm_append_comm.trans (by simp)
  have hpf : (frees (slots n)).Perm ((c + 12) :: frees (v ++ u)) := hp.map _
  have hr' : Ring 4 m ((c + 12) :: frees (v ++ u)) := by
    rw [hc, frees_append, frees_cons] at hr
    have := Ring.rotate _ _ hr
    rwa [List.cons_append, ← frees_append] at this
  have hnd' := hpf.nodup_iff.1 hnd
  have hsp' := hsp.mono hpf.symm.subset
  refine ⟨?_, fun x hx => remove_frame hr' hnd' hsp' ?_⟩
  · by_cases huv : v ++ u = []
    · simp only [List.append_eq_nil_iff] at huv
      simp [huv, Ring, Cycle.Chain.nil]
    · have hne : frees (v ++ u) ≠ [] := by simpa [frees] using huv
      have := remove_ring hr' hne hnd' hsp'
      rw [frees_append] at this ⊢
      exact Ring.rotate _ _ this
  · intro hx'
    apply hx
    simp only [mem_cells] at hx' ⊢
    simpa only [hpf.mem_iff] using hx'

/-- `LIST_POP` takes the first chunk of the slot, and links it to itself. -/
theorem listPop (L : Layout h.mem h.freeChunk addrs slots) {n c : ℕ} {v : List ℕ}
    (hc : slots n = c :: v) :
    Layout (h.listPop n).1.mem (h.listPop n).1.freeChunk addrs (Function.update slots n v)
      ∧ (∀ a ∈ addrs, (h.listPop n).1.mem (a + 8) = h.mem (a + 8))
      ∧ (h.listPop n).2 = c ∧ Ring 4 (h.listPop n).1.mem [c + 12] := by
  have hfc : h.freeChunk n = c := by rw [L.heads, hc]; rfl
  obtain ⟨h1, h2⟩ := L.removeAt_ring (u := []) hc
  have hmem : (h.listPop n).1.mem = remove h.mem (c + 12) := by
    simp [KHeap.listPop, pop, hfc, headerSize]
  have hhead : (h.listPop n).1.freeChunk = Function.update h.freeChunk n (v.headD 0) := by
    have hr := L.rings n
    rw [hc, frees_cons] at hr
    simp only [KHeap.listPop, pop, hfc, headerSize]
    congr 1
    rcases v with _ | ⟨d, v⟩
    · simp [(Ring.singleton_iff.1 hr).1, KHeap.container]
    · rw [frees_cons] at hr
      have hdc : c ≠ d := by
        have := L.nodup_slots n
        rw [hc] at this
        rintro rfl
        exact (List.nodup_cons.1 this).1 List.mem_cons_self
      simp [hr.next_cons, hdc, KHeap.container, headerSize]
  obtain ⟨h3, h4⟩ := L.update_slot (l := v) (n := n) (L.sub n)
    (fun a ha => by rw [hc]; exact List.mem_cons_of_mem _ ha) L.other_slot h2 h1
    (by have := L.nodup_slots n; rw [hc] at this; exact (List.nodup_cons.1 this).2)
    (fun a ha => L.pos n a (by rw [hc]; exact List.mem_cons_of_mem _ ha))
  rw [hmem, hhead]
  refine ⟨h3, h4, ?_, remove_alone _ _⟩
  simp [KHeap.listPop, pop, hfc, headerSize]

/-- `LIST_REMOVE_FROM` takes a chunk out of its slot, and links it to itself. -/
theorem listRemoveFrom (L : Layout h.mem h.freeChunk addrs slots) {n c : ℕ} (hc : c ∈ slots n) :
    Layout (h.listRemoveFrom n c).mem (h.listRemoveFrom n c).freeChunk addrs
        (Function.update slots n ((slots n).erase c))
      ∧ (∀ a ∈ addrs, (h.listRemoveFrom n c).mem (a + 8) = h.mem (a + 8))
      ∧ Ring 4 (h.listRemoveFrom n c).mem [c + 12] := by
  obtain ⟨u, v, hcu, huv, he⟩ := List.exists_erase_eq hc
  rw [he]
  by_cases hhd : h.freeChunk n = c
  · -- the head is popped
    obtain rfl : u = [] := by
      rw [L.heads, huv] at hhd
      rcases u with _ | ⟨d, u⟩
      · rfl
      · simp only [List.cons_append, List.headD_cons] at hhd
        exact absurd (by simp [hhd]) hcu
    obtain ⟨h1, h2, -, h4⟩ := L.listPop huv
    have hm : (h.listRemoveFrom n c).mem = (h.listPop n).1.mem := by
      simp [KHeap.listRemoveFrom, KHeap.listPop, removeFrom, hhd]
    have hf : (h.listRemoveFrom n c).freeChunk = (h.listPop n).1.freeChunk := by
      simp [KHeap.listRemoveFrom, KHeap.listPop, removeFrom, hhd]
    rw [hm, hf]
    exact ⟨h1, h2, h4⟩
  · obtain ⟨h1, h2⟩ := L.removeAt_ring huv
    have hm : (h.listRemoveFrom n c).mem = remove h.mem (c + 12) := by
      simp [KHeap.listRemoveFrom, removeFrom, headerSize, hhd]
    have hu : u ≠ [] := by
      rintro rfl
      exact hhd (by rw [L.heads, huv]; rfl)
    have hf : (h.listRemoveFrom n c).freeChunk
        = Function.update h.freeChunk n ((u ++ v).headD 0) := by
      have hfn : (u ++ v).headD 0 = h.freeChunk n := by
        rw [L.heads, huv]
        obtain ⟨d, u, rfl⟩ := List.exists_cons_of_ne_nil hu
        rfl
      rw [hfn]
      simp [KHeap.listRemoveFrom, removeFrom, headerSize, hhd, KHeap.container]
    have hsub : ∀ a ∈ u ++ v, a ∈ slots n := by
      intro a ha
      rw [huv]
      simp only [List.mem_append, List.mem_cons] at ha ⊢
      tauto
    have hnd : (u ++ v).Nodup := he ▸ (L.nodup_slots n).erase c
    obtain ⟨h3, h4⟩ := L.update_slot (n := n) (L.sub n) hsub L.other_slot h2 h1 hnd
      (fun a ha => L.pos n a (hsub a ha))
    rw [hm, hf]
    exact ⟨h3, h4, remove_alone _ _⟩

/-- `LIST_PUSH` of a chunk in no slot, linked to itself, puts it first. -/
theorem listPush (L : Layout h.mem h.freeChunk addrs slots) {n c : ℕ} (hc : c ∈ addrs)
    (hc0 : c ≠ 0) (hfree : ∀ n', c ∉ slots n') (hself : Ring 4 h.mem [c + 12]) :
    Layout (h.listPush n c).mem (h.listPush n c).freeChunk addrs
        (Function.update slots n (c :: slots n))
      ∧ (∀ a ∈ addrs, (h.listPush n c).mem (a + 8) = h.mem (a + 8))
      ∧ ∀ x, x ∉ cells 4 (frees (c :: slots n)) → (h.listPush n c).mem x = h.mem x := by
  have hk : ∀ a ∈ c :: slots n, a ∈ addrs := by
    intro a ha
    rcases List.mem_cons.1 ha with rfl | ha
    · exact hc
    · exact L.sub n a ha
  have hnd : (c :: slots n).Nodup := List.nodup_cons.2 ⟨hfree n, L.nodup_slots n⟩
  have hkn : ∀ n', n' ≠ n → ∀ a ∈ slots n', a ∉ c :: slots n := by
    intro n' hn a ha ha'
    rcases List.mem_cons.1 ha' with rfl | ha'
    · exact hfree n' ha
    · exact hn (L.disj n' n a ha ha')
  have hpos : ∀ a ∈ c :: slots n, a ≠ 0 := by
    intro a ha
    rcases List.mem_cons.1 ha with rfl | ha
    · exact hc0
    · exact L.pos n a ha
  have hf : (h.listPush n c).freeChunk = Function.update h.freeChunk n ((c :: slots n).headD 0) := by
    simp [KHeap.listPush, push, headerSize]
  have hring : Ring 4 (h.listPush n c).mem (frees (c :: slots n)) ∧
      ∀ x, x ∉ cells 4 (frees (c :: slots n)) → (h.listPush n c).mem x = h.mem x := by
    have hhd := L.heads n
    rcases hsl : slots n with _ | ⟨d, v⟩
    · rw [hsl] at hhd
      simp only [List.headD_nil] at hhd
      have hm : (h.listPush n c).mem = h.mem := by simp [KHeap.listPush, push, hhd]
      rw [hm]
      exact ⟨hself, fun _ _ => rfl⟩
    · rw [hsl] at hhd hnd hk
      have hd0 : d ≠ 0 := L.pos n d (by simp [hsl])
      have hr := L.rings n
      rw [hsl, frees_cons] at hr
      simp only [List.headD_cons] at hhd
      have hm : (h.listPush n c).mem = insertBefore h.mem (d + 12) (c + 12) := by
        simp [KHeap.listPush, push, hhd, hd0, headerSize]
      rw [hm, frees_cons, frees_cons]
      exact ⟨insertBefore_ring hr hself (frees_nodup hnd) (L.sep.spaced_frees hk),
        fun x hx => insertBefore_frame hr hself hx⟩
  rw [hf]
  obtain ⟨h1, h2⟩ := L.update_slot hk (fun _ ha => ha) hkn hring.2 hring.1 hnd hpos
  exact ⟨h1, h2, hring.2⟩

end Layout

/-! ## The chunk ring -/

theorem memoryChunkInit_frame (m : Mem) {c x : ℕ} (hx : ¬ (c ≤ x ∧ x < c + 20)) :
    memoryChunkInit m c x = m x := by
  simp only [memoryChunkInit, headerSize]
  rw [listInit_frame, Mem.set_of_ne, listInit_frame]
  · simp only [mem_cells, List.mem_singleton, exists_eq_left, not_or]
    omega
  · omega
  · simp only [mem_cells, List.mem_singleton, exists_eq_left, not_or]
    omega

theorem memoryChunkInit_spec (m : Mem) (c : ℕ) :
    Ring 4 (memoryChunkInit m c) [c] ∧ memoryChunkInit m c (c + 8) = 0
      ∧ Ring 4 (memoryChunkInit m c) [c + 12] := by
  refine ⟨?_, ?_, listInit_ring _ _⟩
  · have h1 : c ≠ c + 12 + 4 := by omega
    rw [Ring.singleton_iff]
    simp [memoryChunkInit, listInit, Mem.set, headerSize, h1]
  · simp [memoryChunkInit, listInit, Mem.set, headerSize]

namespace Layout

variable {m : Mem} {fc : ℕ → ℕ} {addrs : List ℕ} {slots : ℕ → List ℕ}

/-- A write that leaves the words of the chunks alone. -/
theorem initChunk {m' : Mem} (L : Layout m fc addrs slots)
    (h : ∀ a ∈ addrs, ∀ i < 20, m' (a + i) = m (a + i)) : Layout m' fc addrs slots := by
  refine L.write ?_ fun n => ?_
  · rintro x (hx | ⟨a, ha, rfl⟩)
    · exact h x hx 0 (by omega)
    · exact h a ha 4 (by omega)
  · rintro x (hx | ⟨y, hy, rfl⟩)
    · obtain ⟨a, ha, rfl⟩ := mem_frees.1 hx
      exact h a (L.sub n a ha) 12 (by omega)
    · obtain ⟨a, ha, rfl⟩ := mem_frees.1 hy
      exact h a (L.sub n a ha) 16 (by omega)

/-- A chunk away from the others and linked to itself, inserted after `c`. -/
theorem insertSelf {u v : List ℕ} {c d : ℕ} (L : Layout m fc (u ++ c :: v) slots)
    (hd : ∀ a ∈ u ++ c :: v, a + 20 ≤ d ∨ d + 20 ≤ a) (hself : Ring 4 m [d]) :
    Layout (insertAfter m c d) fc (u ++ c :: d :: v) slots
      ∧ ∀ x, x ∉ cells 4 (d :: (u ++ c :: v)) → insertAfter m c d x = m x := by
  have hp : (u ++ c :: v).Perm (c :: (v ++ u)) := List.perm_append_comm.trans (by simp)
  have hr : Ring 4 m (c :: (v ++ u)) := Ring.rotate u (c :: v) L.ring
  have hdn : d ∉ u ++ c :: v := by
    intro h
    have := hd d h
    omega
  have hnd : (d :: c :: (v ++ u)).Nodup :=
    List.nodup_cons.2 ⟨fun h => hdn (hp.mem_iff.2 h), hp.nodup_iff.1 L.nodup⟩
  have hsep : Sep (d :: (u ++ c :: v)) := L.sep.cons hd
  have hpd : (u ++ c :: d :: v).Perm (d :: (u ++ c :: v)) := by
    rw [show u ++ c :: d :: v = (u ++ [c]) ++ d :: v by simp,
      show u ++ c :: v = (u ++ [c]) ++ v by simp]
    exact List.perm_middle
  have hsp : Spaced 4 (d :: c :: (v ++ u)) :=
    hsep.spaced.mono (List.Perm.cons d hp.symm).subset
  have hring := insertAfter_ring hr hself hnd hsp
  have hfr : ∀ x, x ∉ cells 4 (d :: (u ++ c :: v)) → insertAfter m c d x = m x := by
    intro x hx
    refine insertAfter_frame hr hself hnd hsp fun hx' => hx ?_
    simp only [mem_cells, (List.Perm.cons d hp).mem_iff] at hx' ⊢
    exact hx'
  refine ⟨⟨Ring.rotate (c :: d :: v) u hring, L.heads, fun n => ?_, fun n a ha => ?_, L.disj,
    L.pos, hpd.nodup_iff.2 (List.nodup_cons.2 ⟨hdn, L.nodup⟩), L.nodup_slots,
    fun a ha b hb => hsep a (hpd.mem_iff.1 ha) b (hpd.mem_iff.1 hb)⟩, hfr⟩
  · refine (L.rings n).congr fun x hx => hfr x fun hx' => ?_
    exact hsep.all_free (fun a ha => List.mem_cons_of_mem _ (L.sub n a ha)) hx' hx
  · rw [hpd.mem_iff]
    exact List.mem_cons_of_mem _ (L.sub n a ha)

/-- A new chunk, initialised and inserted after `c`. -/
theorem insertChunk {u v : List ℕ} {c d : ℕ} (L : Layout m fc (u ++ c :: v) slots)
    (hd : ∀ a ∈ u ++ c :: v, a + 20 ≤ d ∨ d + 20 ≤ a) :
    Layout (insertAfter (memoryChunkInit m d) c d) fc (u ++ c :: d :: v) slots
      ∧ insertAfter (memoryChunkInit m d) c d (d + 8) = 0
      ∧ Ring 4 (insertAfter (memoryChunkInit m d) c d) [d + 12]
      ∧ ∀ a ∈ u ++ c :: v, ∀ i ∈ [8, 12, 16],
          insertAfter (memoryChunkInit m d) c d (a + i) = m (a + i) := by
  have hfr : ∀ a ∈ u ++ c :: v, ∀ i < 20, memoryChunkInit m d (a + i) = m (a + i) := by
    intro a ha i hi
    have := hd a ha
    exact memoryChunkInit_frame m (by omega)
  obtain ⟨hself, hflag, hfree⟩ := memoryChunkInit_spec m d
  obtain ⟨h1, h2⟩ := (L.initChunk hfr).insertSelf hd hself
  have hsep : Sep (d :: (u ++ c :: v)) := L.sep.cons hd
  have hdm : d ∈ d :: (u ++ c :: v) := List.mem_cons_self
  refine ⟨h1, (h2 _ (hsep.flag_all hdm)).trans hflag, ?_, fun a ha i hi => ?_⟩
  · refine hfree.congr fun x hx => h2 x fun hx' => ?_
    exact hsep.all_free (l := [d]) (by simp) hx' hx
  · have ha' := List.mem_cons_of_mem d ha
    rw [h2, hfr a ha i (by simp only [List.mem_cons, List.not_mem_nil, or_false] at hi; omega)]
    exact hsep.payload_all ha' hi

/-- A chunk in no slot taken out of the chunk ring. -/
theorem removeChunk {u v : List ℕ} {c : ℕ} (L : Layout m fc (u ++ c :: v) slots)
    (huv : u ++ v ≠ []) (hfree : ∀ n, c ∉ slots n) :
    Layout (remove m c) fc (u ++ v) slots
      ∧ ∀ a ∈ u ++ c :: v, ∀ i ∈ [8, 12, 16], remove m c (a + i) = m (a + i) := by
  have hp : (u ++ c :: v).Perm (c :: (v ++ u)) := List.perm_append_comm.trans (by simp)
  have hr : Ring 4 m (c :: (v ++ u)) := Ring.rotate u (c :: v) L.ring
  have hnd := hp.nodup_iff.1 L.nodup
  have hsp : Spaced 4 (c :: (v ++ u)) := L.sep.spaced.mono hp.symm.subset
  have hvu : v ++ u ≠ [] := by
    intro h
    simp only [List.append_eq_nil_iff] at h
    simp [h] at huv
  have hfr : ∀ a ∈ u ++ c :: v, ∀ i ∈ [8, 12, 16], remove m c (a + i) = m (a + i) := by
    intro a ha i hi
    refine remove_frame hr hnd hsp fun hx => L.sep.payload_all ha hi ?_
    simp only [mem_cells, hp.mem_iff] at hx ⊢
    exact hx
  have hsub : ∀ a ∈ u ++ v, a ∈ u ++ c :: v := by
    intro a ha
    simp only [List.mem_append, List.mem_cons] at ha ⊢
    tauto
  refine ⟨⟨Ring.rotate v u (remove_ring hr hvu hnd hsp), L.heads, fun n => ?_, fun n a ha => ?_,
    L.disj, L.pos, ?_, L.nodup_slots, fun a ha b hb => L.sep a (hsub a ha) b (hsub b hb)⟩, hfr⟩
  · refine (L.rings n).congr ?_
    rintro x (hx | ⟨y, hy, rfl⟩)
    · obtain ⟨a, ha, rfl⟩ := mem_frees.1 hx
      exact hfr a (L.sub n a ha) 12 (by simp)
    · obtain ⟨a, ha, rfl⟩ := mem_frees.1 hy
      exact hfr a (L.sub n a ha) 16 (by simp)
  · have ha' := L.sub n a ha
    have hac : a ≠ c := fun e => hfree n (e ▸ ha)
    simp only [List.mem_append, List.mem_cons] at ha' ⊢
    tauto
  · exact (List.perm_append_comm.nodup_iff).1 (List.nodup_cons.1 hnd).2

/-- A flag written. -/
theorem setFlag (L : Layout m fc addrs slots) {c : ℕ} (hc : c ∈ addrs) (val : ℕ) :
    Layout (m.set (c + 8) val) fc addrs slots := by
  refine L.write (fun x hx => Mem.set_of_ne _ _ ?_) fun n x hx => Mem.set_of_ne _ _ ?_
  · rintro rfl
    exact L.sep.flag_all hc hx
  · rintro rfl
    exact L.sep.flag_free (L.sub n) hc hx

/-- The `free` words of a chunk in no slot, linked to themselves. -/
theorem initFree (L : Layout m fc addrs slots) {c : ℕ} (hc : c ∈ addrs)
    (hfree : ∀ n, c ∉ slots n) :
    Layout (listInit m (c + 12)) fc addrs slots
      ∧ ∀ a ∈ addrs, listInit m (c + 12) (a + 8) = m (a + 8) := by
  have hc1 : ∀ a ∈ [c], a ∈ addrs := by simp [hc]
  refine ⟨L.write (fun x hx => ?_) fun n x hx => ?_, fun a ha => ?_⟩
  · exact listInit_frame m (L.sep.all_free hc1 hx)
  · refine listInit_frame m (L.sep.free_free (L.sub n) hc1 (fun a ha h => ?_) hx)
    rw [List.mem_singleton.1 h] at ha
    exact hfree n ha
  · exact listInit_frame m (L.sep.flag_free hc1 ha)

/-- Between a chunk and the next one of the ring lie its header and its payload. -/
theorem memoryChunkSize_eq {u v : List ℕ} {c d : ℕ} (L : Layout m fc (u ++ c :: d :: v) slots)
    (hd : c + 12 ≤ d) (hd' : d < 2 ^ 32) : memoryChunkSize m c = d - c - 12 := by
  have h := (Ring.link_of_split L.ring).1
  rw [memoryChunkSize, h, sub32_of_le (by omega) hd', headerSize, sub32_of_le (by omega) (by omega)]

end Layout

end RTLKIM

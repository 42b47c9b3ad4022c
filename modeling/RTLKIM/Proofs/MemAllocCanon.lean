import RTLKIM.Proofs.MemAllocFree

/-!
# What the pool's list is after a call

The list of a well-formed pool is the one of the bytes it covers. A block that has none of these
bytes is added to them, and `get_block` takes the front of the first area large enough, so that the
block given back makes the same list. A block that has some of them is refused only at the node it
starts in or past, which is looked at after the loop: not if there is none, and not if one of the
two sums wraps.
-/

namespace RTLKIM

namespace Pool

variable {P Q : Pool} {l : List ℕ} {start size node : ℕ}

/-- The list along `next`, where the links back may be stale. -/
theorem PoolList.sll_of_forward (L : Q.PoolList l) (h : Q.forward = P.forward) :
    Sll (fun n => (P.nodes n).next) P.list l ∧ l.map P.area = l.map Q.area := by
  have hnext : ∀ n, (P.nodes n).next = Q.nextOf n := fun n =>
    (congrArg (fun R : Pool => (R.nodes n).next) h : Q.forward.nextOf n = P.forward.nextOf n).symm
  have hlist : Q.list = P.list := (congrArg Pool.list h : Q.forward.list = P.forward.list)
  rw [← hlist]
  exact ⟨L.sll.congr fun n _ => hnext n,
    List.map_congr_left fun n _ => (area_of_forward h n).symm⟩

/-- The numbers next to both ends of the block are in `S`, and others after a gap. -/
def Bridges (S : Set ℕ) (start stop : ℕ) : Prop :=
  (∃ x ∈ S, x + 1 = start) ∧ stop ∈ S ∧ ∃ y z, stop < y ∧ y < z ∧ y ∉ S ∧ z ∈ S

namespace WellFormed

theorem of_apart (L : P.PoolList l) (hap : Apart (l.map P.area))
    (hpos : ∀ a ∈ l.map P.area, 0 < a.size)
    (hw : ∀ a ∈ l.map P.area, a.size < 2 ^ 32 ∧ a.stop ≤ 2 ^ 32) : P.WellFormed l :=
  ⟨L.dll, L.alive, hap.sorted, hap.disjoint, hap.gaps, hpos, hw⟩

variable (h : P.WellFormed l)

include h

theorem list : P.PoolList l := ⟨h.dll, h.alive⟩

theorem merged : Merged (covered (l.map P.area)) (l.map P.area) :=
  ⟨.of_sorted h.sorted h.disjoint h.gaps h.pos, h.pos, rfl⟩

theorem wordsOf : P.Words l := fun _ hn => h.words _ (List.mem_map_of_mem hn)

theorem start_lt {n : ℕ} (hn : n ∈ l) : (P.nodes n).start < 2 ^ 32 := by
  have hmem : P.area n ∈ l.map P.area := List.mem_map_of_mem hn
  have h1 := h.pos _ hmem
  have h2 := (h.words _ hmem).2
  simp only [Area.stop, area] at h1 h2
  omega

/-- Some address is not free, as no area has the size of the address space. -/
theorem exists_missing : ∃ g < 2 ^ 32, g ∉ covered (l.map P.area) := by
  obtain ⟨S, hS⟩ := Frames.exists_of_aligned (K := 1) (N := 2 ^ 32) (by decide) h.merged.apart
    (fun a _ => ⟨Nat.mod_one _, Nat.mod_one _⟩) h.pos
    (fun a ha => (h.words a ha).2.trans_eq (Nat.mul_one _).symm)
  obtain ⟨g, hg, hgS⟩ := hS.exists_missing (by decide)
    fun a ha => (h.words a ha).1.trans_eq (Nat.mul_one _).symm
  refine ⟨g, hg, fun hmem => hgS ((hS.mem_iff (by decide)).2 ?_)⟩
  rwa [Nat.mul_one]

omit h in
/-- A block that fills a gap with an area past the next one bridges what is free. -/
theorem bridges {w x : List ℕ} {p c d : ℕ} (h : P.WellFormed (w ++ [p] ++ c :: d :: x))
    (hp : (P.area p).stop = start) (hc : start + size = (P.nodes c).start) :
    Bridges (covered ((w ++ [p] ++ c :: d :: x).map P.area)) start (start + size) := by
  have hap := h.merged.apart
  have hmem : ∀ n ∈ w ++ [p] ++ c :: d :: x, P.area n ∈ (w ++ [p] ++ c :: d :: x).map P.area :=
    fun n hn => List.mem_map_of_mem hn
  have hpos : ∀ n ∈ w ++ [p] ++ c :: d :: x, 0 < (P.area n).size := fun n hn => h.pos _ (hmem n hn)
  have hpp := hpos p (by simp)
  have hcc := hpos c (by simp)
  have hcd : (P.area c).stop < (P.nodes d).start := by
    have hpw := List.pairwise_map.1 hap.pairwise
    exact (List.pairwise_cons.1 (List.pairwise_append.1 hpw).2.1).1 d (by simp)
  -- the number after the next area is in none
  have hafter : (P.area c).stop ∉ covered ((w ++ [p] ++ c :: d :: x).map P.area) := by
    rintro ⟨a, ha, hx⟩
    rcases hap.trichotomy ha (hmem c (by simp)) with rfl | hlt | hlt
    · exact lt_irrefl _ hx.2
    · exact Nat.not_lt.2 (Nat.le_add_right _ _) (hx.2.trans hlt)
    · exact Nat.not_le.2 hlt hx.1
  have hcstop : start + size < (P.area c).stop := by
    rw [hc]
    exact Nat.lt_add_of_pos_right hcc
  simp only [Area.stop] at hp
  refine ⟨⟨start - 1, ⟨P.area p, hmem p (by simp), ?_, ?_⟩, ?_⟩,
    ⟨P.area c, hmem c (by simp), hc.ge, hcstop⟩, (P.area c).stop, (P.nodes d).start, hcstop, hcd,
    hafter, ⟨P.area d, hmem d (by simp), le_rfl, Nat.lt_add_of_pos_right (hpos d (by simp))⟩⟩
  · omega
  · simp only [Area.stop]
    omega
  · omega

/-- A block that has no byte of the list is added to it, and the links are right up to the links
back. -/
theorem addFree (hpos : 0 < size) (hb : start + size ≤ 2 ^ 32)
    (hdisj : Disjoint (Area.bytes ⟨start, size⟩) (covered (l.map P.area)))
    (hroom : ∃ g < 2 ^ 32, g ∉ covered (l.map P.area) ∪ Area.bytes ⟨start, size⟩)
    (h0 : node ≠ 0) (hfresh : node ∉ P.alive) :
    ∃ P' Q l', P.addFree start size node = some (P', .noErr) ∧ Q.forward = P'.forward
      ∧ (¬ Bridges (covered (l.map P.area)) start (start + size) → Q = P') ∧ Q.WellFormed l'
      ∧ covered (l'.map Q.area) = covered (l.map P.area) ∪ Area.bytes ⟨start, size⟩ := by
  have hap := h.merged.apart
  -- an area of what the list becomes has a size, as it leaves an address out
  have hspec : ∀ u v, l = u ++ v → Fits (u.map P.area) ⟨start, size⟩ (v.map P.area) →
      Merged (covered (l.map P.area) ∪ Area.bytes ⟨start, size⟩)
        (addArea (u.map P.area) ⟨start, size⟩ (v.map P.area)) := by
    rintro u v rfl hfit
    rw [List.map_append] at hap ⊢
    obtain ⟨h1, h2⟩ := addArea_spec hap hfit
    refine ⟨h1, forall_mem_addArea (fun a b _ ha _ => Nat.add_pos_left ha _) ?_ hpos, h2⟩
    rw [← List.map_append]
    exact h.pos
  have hwords : ∀ u v, l = u ++ v → Fits (u.map P.area) ⟨start, size⟩ (v.map P.area) →
      ∀ a ∈ addArea (u.map P.area) ⟨start, size⟩ (v.map P.area),
        a.size < 2 ^ 32 ∧ a.stop ≤ 2 ^ 32 := by
    intro u v huv hfit a ha
    have hstop : a.stop ≤ 2 ^ 32 := by
      refine forall_mem_addArea (Q := fun b => b.stop ≤ 2 ^ 32) (fun a b hab _ hb => ?_)
        (fun b hbm => ?_) hb a ha
      · rwa [Area.join_stop hab]
      · rw [← List.map_append, ← huv] at hbm
        exact (h.words b hbm).2
    obtain ⟨g, hg, hgS⟩ := hroom
    rw [← (hspec u v huv hfit).covers] at hgS
    exact ⟨size_lt_of_not_covered hg hgS ha hstop, hstop⟩
  obtain ⟨P', Q, u, v, l', hcode, hQ, hexact, huv, hfit, L', harea⟩ := h.list.addClear
    (.of_disjoint hpos h.pos hdisj) hpos hb (fun n hn => h.start_lt hn)
    (fun u v huv hfit a ha => (hwords u v huv hfit a ha).1) h0 hfresh
  have hm := hspec u v huv hfit
  rw [← harea] at hm
  refine ⟨P', Q, l', hcode, hQ, fun hno => hexact ?_, .of_apart L' hm.apart hm.pos ?_, hm.covers⟩
  · rintro w p c x rfl rfl hp hc
    rcases x with _ | ⟨d, x⟩
    · rfl
    · exact absurd ((huv ▸ h).bridges (by simpa using hp) hc) (huv ▸ hno)
  · rw [harea]
    exact hwords u v huv hfit

/-- `get_block` takes the front of the first area that is large enough, if there is one. -/
theorem getBlock {count need : ℕ} (hneed : mul32 kernelPageSize count = need) :
    ((l.map P.area).find? (fun a => need ≤ a.size) = none
        ∧ P.getBlock count = some (P, 0, .noMoreFreeMem))
      ∨ ∃ A P' l' u v, (l.map P.area).find? (fun a => need ≤ a.size) = some A
        ∧ P.getBlock count = some (P', A.start, .noErr) ∧ P'.WellFormed l'
        ∧ l.map P.area = u ++ A :: v ∧ need ≤ A.size ∧ l'.map P'.area = takeArea u A v need := by
  rcases h.list.getBlock_first h.wordsOf hneed with ⟨hcode, hall⟩ | ⟨u, n, v, l', P', hcode, rfl, hn,
    hu, L', harea⟩
  · refine .inl ⟨List.find?_eq_none.2 fun a ha => ?_, hcode⟩
    obtain ⟨n, hn, rfl⟩ := List.mem_map.1 ha
    exact fun hd => absurd (hall n hn) (Nat.not_lt.2 (of_decide_eq_true hd))
  have hle : need ≤ (P.area n).size := hn
  have hmap : (u ++ n :: v).map P.area = u.map P.area ++ P.area n :: v.map P.area := by
    rw [List.map_append, List.map_cons]
  have hap := h.merged.apart
  have hpos := h.pos
  have hw := h.words
  rw [hmap] at hap hpos hw
  refine .inr ⟨P.area n, P', l', _, _, find?_area hn hu, hcode, .of_apart L' ?_ ?_ ?_, hmap, hle,
    harea⟩
  · rw [harea]
    exact (takeArea_spec hap hle).1
  · rw [harea]
    exact takeArea_pos hpos hle
  · rw [harea]
    refine forall_mem_takeArea hw fun _ hA => ?_
    simp only [Area.stop] at hA hle ⊢
    omega

end WellFormed

/-! ## The free bytes -/

/-- The free bytes are `S`. The list is right along `next`, and right both ways if `e`. -/
def Spans (P : Pool) (e : Prop) (S : Set ℕ) : Prop :=
  ∃ (Q : Pool) (l : List ℕ), Q.forward = P.forward ∧ (e → Q = P) ∧ Q.WellFormed l
    ∧ covered (l.map Q.area) = S

theorem WellFormed.spans (h : P.WellFormed l) (e : Prop) : P.Spans e (covered (l.map P.area)) :=
  ⟨P, l, rfl, fun _ => rfl, h, rfl⟩

namespace Spans

variable {e : Prop} {S : Set ℕ}

/-- The list is the one of the free bytes. -/
theorem list (h : P.Spans e S) :
    ∃ l, Sll (fun n => (P.nodes n).next) P.list l ∧ Merged S (l.map P.area) := by
  obtain ⟨Q, l, hQ, -, hw, rfl⟩ := h
  obtain ⟨hsll, hmap⟩ := hw.list.sll_of_forward hQ
  refine ⟨l, hsll, ?_⟩
  rw [hmap]
  exact hw.merged

theorem exact (h : P.Spans e S) (he : e) : ∃ l, P.WellFormed l ∧ covered (l.map P.area) = S := by
  obtain ⟨Q, l, -, hexact, hw, hS⟩ := h
  obtain rfl := hexact he
  exact ⟨l, hw, hS⟩

/-- A block that is not free is added to what is. -/
theorem addFree (h : P.Spans e S) (hpos : 0 < size) (hb : start + size ≤ 2 ^ 32)
    (hdisj : Disjoint (Area.bytes ⟨start, size⟩) S)
    (hroom : ∃ g < 2 ^ 32, g ∉ S ∪ Area.bytes ⟨start, size⟩)
    (he : e → ¬ Bridges S start (start + size)) (h0 : node ≠ 0) (hfresh : node ∉ P.alive) :
    ∃ P', P.addFree start size node = some (P', .noErr)
      ∧ P'.Spans e (S ∪ Area.bytes ⟨start, size⟩) := by
  obtain ⟨Q, l, hQ, hexact, hw, rfl⟩ := h
  obtain ⟨Q', R, l', hcode, hR, hgap, hw', hcov⟩ := hw.addFree hpos hb hdisj hroom h0
    (alive_of_forward hQ ▸ hfresh)
  obtain ⟨P', hP', h1⟩ := addFree_stale hQ hcode
  refine ⟨P', hP', R, l', hR.trans h1, fun htrue => ?_, hw', hcov⟩
  obtain rfl := hexact htrue
  rw [hcode] at hP'
  rw [← (Prod.mk.inj (Option.some_inj.1 hP')).1]
  exact hgap (he htrue)

end Spans

/-- What `get_block` took from the front of an area is given back. -/
theorem WellFormed.giveBack (h : P.WellFormed l) {count : ℕ} {A : Area} (hpos : 1 ≤ count)
    (hA : (l.map P.area).find? (fun a => count * kernelPageSize ≤ a.size) = some A) {P₁ : Pool}
    {l₁ : List ℕ} (h₁ : P₁.WellFormed l₁) (hcov : covered (l₁.map P₁.area)
      = covered (l.map P.area) \ Area.bytes ⟨A.start, count * kernelPageSize⟩) (h0 : node ≠ 0)
    (hfresh : node ∉ P₁.alive) :
    ∃ P₂ l₂, P₁.addFree A.start (count * kernelPageSize) node = some (P₂, .noErr)
      ∧ Sll (fun n => (P₂.nodes n).next) P₂.list l₂ ∧ l₂.map P₂.area = l.map P.area := by
  have hmem := List.mem_of_find?_eq_some hA
  have hsize : count * kernelPageSize ≤ A.size := by simpa using List.find?_some hA
  have hstop := (h.words A hmem).2
  have hsub : Area.bytes ⟨A.start, count * kernelPageSize⟩ ⊆ covered (l.map P.area) := by
    intro x hx
    refine ⟨A, hmem, hx.1, ?_⟩
    have := hx.2
    simp only [Area.stop] at this ⊢
    omega
  have hunion : covered (l₁.map P₁.area) ∪ Area.bytes ⟨A.start, count * kernelPageSize⟩
      = covered (l.map P.area) := by
    rw [hcov, Set.sdiff_union_of_subset hsub]
  have hneed : 0 < count * kernelPageSize := Nat.mul_pos hpos (by decide)
  have hend : A.start + count * kernelPageSize ≤ 2 ^ 32 := by
    simp only [Area.stop] at hstop
    omega
  have hdisj : Disjoint (Area.bytes ⟨A.start, count * kernelPageSize⟩)
      (covered (l₁.map P₁.area)) := by
    rw [hcov]
    exact disjoint_sdiff_self_right
  have hroom := h.exists_missing
  rw [← hunion] at hroom
  obtain ⟨P₂, hcode, hspans⟩ := (h₁.spans False).addFree hneed hend hdisj hroom False.elim h0 hfresh
  obtain ⟨l₂, hsll, hm⟩ := hspans.list
  rw [hunion] at hm
  exact ⟨P₂, l₂, hcode, hsll, hm.eq h.merged⟩

/-- `add_free` and `get_block` keep the list the one of the bytes that are free. -/
theorem pool_canonical (h : P.WellFormed l) :
    (∀ start size node : ℕ, 0 < size → start + size ≤ 2 ^ 32 →
      Disjoint (Area.bytes ⟨start, size⟩) (covered (l.map P.area)) →
      (∃ g < 2 ^ 32, g ∉ covered (l.map P.area) ∪ Area.bytes ⟨start, size⟩) → node ≠ 0 →
      node ∉ P.alive → ∃ P' l', P.addFree start size node = some (P', .noErr)
        ∧ Sll (fun n => (P'.nodes n).next) P'.list l'
        ∧ Merged (covered (l.map P.area) ∪ Area.bytes ⟨start, size⟩) (l'.map P'.area)
        ∧ ∀ A, Merged (covered (l.map P.area) ∪ Area.bytes ⟨start, size⟩) A → A = l'.map P'.area)
    ∧ ∀ (count : ℕ) (A : Area), 1 ≤ count → count * kernelPageSize < 2 ^ 32 →
      (l.map P.area).find? (fun a => count * kernelPageSize ≤ a.size) = some A →
      ∃ P₁ l₁, P.getBlock count = some (P₁, A.start, .noErr) ∧ P₁.WellFormed l₁
        ∧ covered (l₁.map P₁.area)
          = covered (l.map P.area) \ Area.bytes ⟨A.start, count * kernelPageSize⟩
        ∧ ∀ node, node ≠ 0 → node ∉ P₁.alive → ∃ P₂ l₂,
          P₁.addFree A.start (count * kernelPageSize) node = some (P₂, .noErr)
          ∧ Sll (fun n => (P₂.nodes n).next) P₂.list l₂ ∧ l₂.map P₂.area = l.map P.area := by
  refine ⟨fun start size node hpos hb hdisj hroom h0 hfresh => ?_,
    fun count A hpos hcount hA => ?_⟩
  · obtain ⟨P', hcode, hspans⟩ :=
      (h.spans False).addFree hpos hb hdisj hroom False.elim h0 hfresh
    obtain ⟨l', hsll, hm⟩ := hspans.list
    exact ⟨P', l', hcode, hsll, hm, fun A hA => hA.eq hm⟩
  · have hmul : mul32 kernelPageSize count = count * kernelPageSize := by
      rw [mul32_of_lt (by rwa [Nat.mul_comm] at hcount), Nat.mul_comm]
    rcases h.getBlock hmul with ⟨hnone, -⟩ | ⟨B, P₁, l₁, u, v, hB, hcode, h₁, hmap, hle, harea⟩
    · rw [hA] at hnone
      cases hnone
    obtain rfl : A = B := Option.some_inj.1 (hA.symm.trans hB)
    have hcov : covered (l₁.map P₁.area)
        = covered (l.map P.area) \ Area.bytes ⟨A.start, count * kernelPageSize⟩ := by
      rw [harea, hmap]
      exact (takeArea_spec (hmap ▸ h.merged.apart) hle).2
    exact ⟨P₁, l₁, hcode, h₁, hcov, fun node h0 hfresh =>
      h.giveBack hpos hA h₁ hcov h0 hfresh⟩

/-- Two areas, with room for one frame between them. -/
def gapPool : Pool :=
  ⟨fun n => if n = 1 then ⟨0x1000, 0x1000, 2, 0⟩ else ⟨0x3000, 0x1000, 0, 1⟩, [2, 1], 1⟩

theorem gapPool_wellFormed : gapPool.WellFormed [1, 2] := by
  refine .of_apart ⟨⟨?_, rfl, by simp, by simp⟩, by simp [gapPool]⟩ ?_ ?_ ?_
  · simp [DLink, nextOf, prevOf, gapPool]
  · simp [Apart, Area.Before, Area.stop, area, gapPool]
  · simp [area, gapPool]
  · simp [Area.stop, area, gapPool]

/-- The frame between them makes them one area. -/
theorem pool_canonical_gap : ∃ P' l', gapPool.addFree 0x2000 0x1000 3 = some (P', .noErr)
    ∧ Sll (fun n => (P'.nodes n).next) P'.list l' ∧ l'.map P'.area = [⟨0x1000, 0x3000⟩] := by
  have hbytes : covered ([1, 2].map gapPool.area) ∪ Area.bytes ⟨0x2000, 0x1000⟩
      = covered [⟨0x1000, 0x3000⟩] := by
    ext x
    simp only [covered_cons, covered_nil, List.map_cons, List.map_nil, Set.union_empty, Area.bytes,
      Area.stop, area, gapPool, Set.mem_union, Set.mem_Ico]
    simp only [if_true, if_neg (show (2 : ℕ) ≠ 1 by decide)]
    omega
  obtain ⟨P', l', hcode, hsll, -, heq⟩ := (pool_canonical gapPool_wellFormed).1 0x2000 0x1000 3
    (by decide) (by decide)
    (Set.disjoint_left.2 fun x hx hx' => by
      simp only [covered_cons, covered_nil, List.map_cons, List.map_nil, Set.union_empty,
        Area.bytes, Area.stop, area, gapPool, Set.mem_union, Set.mem_Ico] at hx hx'
      simp only [if_true, if_neg (show (2 : ℕ) ≠ 1 by decide)] at hx'
      omega)
    ⟨0, by decide, by rw [hbytes]; simp [Area.bytes, Area.stop]⟩ (by decide) (by decide)
  exact ⟨P', l', hcode, hsll, (heq _ ⟨.singleton _, by simp, hbytes.symm⟩).symm⟩

/-! ## Overlaps -/

/-- The block has a byte of an area of the list. -/
def Overlaps (P : Pool) (l : List ℕ) (start size : ℕ) : Prop :=
  ∃ a ∈ l.map P.area, (a.bytes ∩ Area.bytes ⟨start, size⟩).Nonempty

section Overlap

variable {p c : ℕ} {u v : List ℕ}

/-- Where the loop stops, a block can only overlap the area before it and the one after it. -/
theorem WellFormed.overlap_iff (h : P.WellFormed (u ++ [p] ++ v)) (hpos : 0 < size)
    (hp : (P.nodes p).start ≤ start) (hv : ∀ c ∈ v.head?, start < (P.nodes c).start) :
    P.Overlaps (u ++ [p] ++ v) start size
      ↔ start < (P.area p).stop ∨ ∃ c ∈ v.head?, (P.nodes c).start < start + size := by
  have hpw := List.pairwise_map.1 h.merged.apart.pairwise
  constructor
  · rintro ⟨a, ha, x, ⟨hxa, hxa'⟩, hx, hx'⟩
    obtain ⟨n, hn, rfl⟩ := List.mem_map.1 ha
    have hxs : x < start + size := hx'
    rcases List.mem_append.1 hn with hn | hn
    · refine .inl (lt_of_le_of_lt hx (lt_of_lt_of_le hxa' ?_))
      rcases List.mem_append.1 hn with hn | hn
      · have hlt : (P.area n).stop < (P.nodes p).start :=
          (List.pairwise_append.1 (List.pairwise_append.1 hpw).1).2.2 n hn p (by simp)
        exact hlt.le.trans (Nat.le_add_right _ _)
      · rw [List.mem_singleton.1 hn]
    · rcases v with _ | ⟨c, v⟩
      · cases hn
      refine .inr ⟨c, rfl, lt_of_le_of_lt ?_ (lt_of_le_of_lt hxa hxs)⟩
      rcases List.mem_cons.1 hn with rfl | hn
      · exact le_rfl
      · have hlt : (P.area c).stop < (P.nodes n).start :=
          (List.pairwise_cons.1 (List.pairwise_append.1 hpw).2.1).1 n hn
        exact (Nat.le_add_right _ _).trans hlt.le
  · rintro (hlt | ⟨c, hc, hlt⟩)
    · exact ⟨P.area p, List.mem_map_of_mem (by simp), start, ⟨hp, hlt⟩, le_rfl,
        Nat.lt_add_of_pos_right hpos⟩
    · have hcm : P.area c ∈ (u ++ [p] ++ v).map P.area :=
        List.mem_map_of_mem (List.mem_append_right _ (List.mem_of_mem_head? hc))
      exact ⟨P.area c, hcm, (P.nodes c).start, ⟨le_rfl, Nat.lt_add_of_pos_right (h.pos _ hcm)⟩,
        (hv c hc).le, hlt⟩

/-- The only area that the start of the block can be in is the one before the seam. -/
theorem WellFormed.mem_seam (h : P.WellFormed (u ++ [p] ++ v))
    (hp : (P.nodes p).start ≤ start) (hv : ∀ c ∈ v.head?, start < (P.nodes c).start) {a : Area}
    (ha : a ∈ (u ++ [p] ++ v).map P.area) (hx : start ∈ a.bytes) : a = P.area p := by
  have hmem : P.area p ∈ (u ++ [p] ++ v).map P.area := List.mem_map_of_mem (by simp)
  rcases h.merged.apart.trichotomy ha hmem with heq | hlt | hlt
  · exact heq
  · exact absurd (hx.2.trans hlt) (Nat.not_lt.2 hp)
  -- an area after `p` is not before the one after the seam
  · obtain ⟨n, hn, rfl⟩ := List.mem_map.1 ha
    have hpw := List.pairwise_map.1 h.merged.apart.pairwise
    rcases List.mem_append.1 hn with hn | hn
    · rcases List.mem_append.1 hn with hn | hn
      · have hlt' : (P.area n).stop < (P.nodes p).start :=
          (List.pairwise_append.1 (List.pairwise_append.1 hpw).1).2.2 n hn p (by simp)
        exact absurd (hx.2.trans hlt') (Nat.not_lt.2 hp)
      · rw [List.mem_singleton.1 hn]
    · rcases v with _ | ⟨c, v⟩
      · cases hn
      have hc := hv c rfl
      rcases List.mem_cons.1 hn with rfl | hn
      · exact absurd hx.1 (Nat.not_le.2 hc)
      · have hlt' : (P.area c).stop < (P.nodes n).start :=
          (List.pairwise_cons.1 (List.pairwise_append.1 hpw).2.1).1 n hn
        exact absurd hx.1 (Nat.not_le.2 (hc.trans (lt_of_le_of_lt (Nat.le_add_right _ _) hlt')))

/-- The block starts in an area just when it starts in the one before the seam. -/
theorem WellFormed.starts_in_iff (h : P.WellFormed (u ++ [p] ++ v))
    (hp : (P.nodes p).start ≤ start) (hv : ∀ c ∈ v.head?, start < (P.nodes c).start)
    (R : Area → Prop) : (∃ a ∈ (u ++ [p] ++ v).map P.area, start ∈ a.bytes ∧ R a)
      ↔ start < (P.area p).stop ∧ R (P.area p) := by
  constructor
  · rintro ⟨a, ha, hx, hR⟩
    obtain rfl := h.mem_seam hp hv ha hx
    exact ⟨hx.2, hR⟩
  · rintro ⟨hlt, hR⟩
    exact ⟨P.area p, List.mem_map_of_mem (by simp), ⟨hp, hlt⟩, hR⟩

/-- The checks at the seam find the block in the area before it, or the next one in the block, unless
the sum they look at wraps. -/
theorem WellFormed.refusedAt_iff (h : P.WellFormed (u ++ [p] ++ v)) (hb : start + size ≤ 2 ^ 32) :
    P.RefusedAt (u ++ [p]) v start size
      ↔ (start < (P.area p).stop ∧ (P.area p).stop < 2 ^ 32)
        ∨ (start + size < 2 ^ 32 ∧ ∃ c ∈ v.head?, (P.nodes c).start < start + size) := by
  have hstop : (P.nodes p).start + (P.nodes p).size ≤ 2 ^ 32 :=
    (h.words (P.area p) (List.mem_map_of_mem (by simp))).2
  rw [refusedAt_concat]
  refine or_congr (lt_add32_iff hstop) ⟨?_, ?_⟩
  · rintro ⟨c, hc, hlt⟩
    obtain ⟨hlt, hend⟩ := (lt_add32_iff hb).1 hlt
    exact ⟨hend, c, hc, hlt⟩
  · rintro ⟨hend, c, hc, hlt⟩
    exact ⟨c, hc, (lt_add32_iff hb).2 ⟨hlt, hend⟩⟩

/-- There is no area after one that ends with the address space. -/
theorem WellFormed.stop_lt_of_next (h : P.WellFormed (u ++ [p] ++ v)) (hc : c ∈ v.head?) :
    (P.area p).stop < 2 ^ 32 := by
  have hcv : c ∈ v := List.mem_of_mem_head? hc
  have hpw := List.pairwise_map.1 h.merged.apart.pairwise
  have hlt : (P.area p).stop < (P.nodes c).start :=
    (List.pairwise_append.1 hpw).2.2 p (by simp) c hcv
  exact hlt.trans (h.start_lt (List.mem_append_right _ hcv))

/-- A block that starts before the first area starts before all. -/
theorem WellFormed.lt_start (h : P.WellFormed v) (hv : ∀ c ∈ v.head?, start < (P.nodes c).start) :
    ∀ a ∈ v.map P.area, start < a.start := by
  intro a ha
  obtain ⟨n, hn, rfl⟩ := List.mem_map.1 ha
  rcases v with _ | ⟨c, v⟩
  · cases hn
  rcases List.mem_cons.1 hn with rfl | hn
  · exact hv n rfl
  · exact (hv c rfl).trans ((List.pairwise_cons.1 h.sorted).1 _ (List.mem_map_of_mem hn))

end Overlap

/-- `add_free` refuses just the blocks that overlap the list when the block overlaps none of it, when
it starts in an area that does not end with the address space, or when it starts past an area and in
none and does not end with the address space. -/
theorem addFree_refuses_iff (h : P.WellFormed l) (start size node : ℕ) (hpos : 0 < size)
    (hb : start + size ≤ 2 ^ 32) :
    (P.addFree start size node = some (P, .unauthorizedAction) ↔ P.Overlaps l start size)
      ↔ ¬ P.Overlaps l start size ∨ (∃ a ∈ l.map P.area, start ∈ a.bytes ∧ a.stop < 2 ^ 32)
        ∨ (∃ a ∈ l.map P.area, a.start ≤ start) ∧ (∀ a ∈ l.map P.area, start ∉ a.bytes)
          ∧ start + size < 2 ^ 32 := by
  by_cases hl : l = []
  · subst hl
    have hlist : P.list = 0 := h.dll.head
    have hnone : ¬ P.Overlaps [] start size := by simp [Overlaps]
    refine iff_of_true (iff_of_false (fun hc => ?_) hnone) (.inl hnone)
    rw [Pool.addFree, if_pos hlist] at hc
    cases (Prod.mk.inj (Option.some_inj.1 hc)).2
  obtain ⟨u, v, rfl, hu, hv, hcode⟩ := h.list.addFree_eq hl start
  obtain ⟨hrefuse, hlink⟩ := hcode size node
  have hrefused : P.addFree start size node = some (P, .unauthorizedAction)
      ↔ P.RefusedAt u v start size := by
    refine ⟨fun hc => ?_, hrefuse⟩
    by_contra hno
    rw [hlink hno] at hc
    cases (Prod.mk.inj (Option.some_inj.1 hc)).2
  rw [hrefused]
  rcases List.eq_nil_or_concat u with rfl | ⟨u, p, rfl⟩
  · -- no node starts before the block, and nothing is looked at
    have hafter : ∀ a ∈ ([] ++ v).map P.area, start < a.start := h.lt_start hv
    have hno : ¬ P.RefusedAt [] v start size := by simp [RefusedAt]
    constructor
    · exact fun hiff => .inl fun ho => hno (hiff.2 ho)
    · rintro (hnone | ⟨a, ha, hx, -⟩ | ⟨⟨a, ha, hle⟩, -⟩)
      · exact iff_of_false hno hnone
      · exact absurd hx.1 (Nat.not_le.2 (hafter a ha))
      · exact absurd hle (Nat.not_le.2 (hafter a ha))
  rw [List.concat_eq_append] at *
  have hp := hu p (by simp)
  have hstarts : ∃ a ∈ (u ++ [p] ++ v).map P.area, a.start ≤ start :=
    ⟨P.area p, List.mem_map_of_mem (by simp), hp⟩
  have hnotin : (∀ a ∈ (u ++ [p] ++ v).map P.area, start ∉ a.bytes)
      ↔ ¬ start < (P.area p).stop := by
    have h1 := h.starts_in_iff hp hv fun _ => True
    simp only [and_true] at h1
    rw [← h1]
    push Not
    rfl
  rw [h.refusedAt_iff hb, h.overlap_iff hpos hp hv, h.starts_in_iff hp hv, hnotin,
    and_iff_right hstarts]
  -- in the area before the seam its end decides, and past it the end of the block
  by_cases hin : start < (P.area p).stop
  · by_cases hend : (P.area p).stop < 2 ^ 32
    · exact iff_of_true (iff_of_true (.inl ⟨hin, hend⟩) (.inl hin)) (.inr (.inl ⟨hin, hend⟩))
    · have hlast : ¬ ∃ c ∈ v.head?, (P.nodes c).start < start + size := by
        rintro ⟨c, hc, -⟩
        exact hend (h.stop_lt_of_next hc)
      simp only [hin, hend, hlast]
      simp
  · simp only [hin, false_and, false_or, not_false_eq_true, true_and]
    exact ⟨fun hiff => Decidable.or_iff_not_imp_left.2 fun hno => (hiff.2 (not_not.1 hno)).1,
      fun hor => ⟨And.right, fun hc => ⟨hor.resolve_left (not_not.2 hc), hc⟩⟩⟩

/-- The frame of the second area, freed again. -/
theorem addFree_refuses_gap :
    (gapPool.addFree 0x3000 0x1000 3 = some (gapPool, .unauthorizedAction)
      ↔ gapPool.Overlaps [1, 2] 0x3000 0x1000) := by
  refine (addFree_refuses_iff gapPool_wellFormed 0x3000 0x1000 3 (by decide) (by decide)).2
    (.inr (.inl ⟨⟨0x3000, 0x1000⟩, by simp [area, gapPool], ?_, ?_⟩))
  · simp [Area.bytes, Area.stop]
  · simp [Area.stop]

/-- Two frames freed before the first area, of which the second is free: no error. -/
theorem addFree_not_refused : gapPool.WellFormed [1, 2] ∧ gapPool.Overlaps [1, 2] 0 0x2000
    ∧ ∃ P', gapPool.addFree 0 0x2000 3 = some (P', .noErr) := by
  refine ⟨gapPool_wellFormed, ⟨⟨0x1000, 0x1000⟩, by simp [area, gapPool], 0x1000, ?_, ?_⟩, ?_⟩
  · simp [Area.bytes, Area.stop]
  · simp [Area.bytes, Area.stop]
  · have hcode : (gapPool.addFree 0 0x2000 3).map Prod.snd = some .noErr := by decide +kernel
    obtain ⟨⟨P', err⟩, hP', rfl⟩ := Option.map_eq_some_iff.1 hcode
    exact ⟨P', hP'⟩

/-! ## The bytes that `get_block` takes -/

/-- A call that succeeds takes `count` frames from one area, from the address returned on, and one
that fails takes nothing, as no area has as many bytes. -/
structure Carves (P : Pool) (l : List ℕ) (count : ℕ) : Prop where
  returns : P.getBlock count ≠ none
  taken : ∀ P' addr, P.getBlock count = some (P', addr, .noErr) →
    (∃ a ∈ l.map P.area, Area.bytes ⟨addr, count * kernelPageSize⟩ ⊆ a.bytes)
    ∧ ∃ l', P'.WellFormed l' ∧ covered (l'.map P'.area)
        = covered (l.map P.area) \ Area.bytes ⟨addr, count * kernelPageSize⟩
  refused : ∀ P' addr err, P.getBlock count = some (P', addr, err) → err ≠ .noErr →
    P' = P ∧ ∀ a ∈ l.map P.area, a.size < count * kernelPageSize

/-- A size that does not wrap is taken or refused as it is. -/
theorem WellFormed.carves (h : P.WellFormed l) {count : ℕ}
    (hcount : count * kernelPageSize < 2 ^ 32) : P.Carves l count := by
  have hneed : mul32 kernelPageSize count = count * kernelPageSize := by
    rw [mul32_of_lt (by rwa [Nat.mul_comm] at hcount), Nat.mul_comm]
  rcases h.getBlock hneed with ⟨hnone, hcode⟩ | ⟨A, Q, l', u, v, hA, hcode, hQ, hmap, hle, harea⟩
  · refine ⟨by simp [hcode], fun P' addr h1 => ?_, fun P' addr err h1 _ => ?_⟩
    · rw [hcode] at h1
      cases h1
    · rw [hcode] at h1
      obtain ⟨rfl, -, -⟩ := h1
      refine ⟨rfl, fun a ha => Nat.lt_of_not_le fun hle => ?_⟩
      exact absurd (decide_eq_true hle) (List.find?_eq_none.1 hnone a ha)
  · refine ⟨by simp [hcode], fun P' addr h1 => ?_, fun P' addr err h1 herr => ?_⟩
    · rw [hcode] at h1
      obtain ⟨rfl, rfl, -⟩ := h1
      refine ⟨⟨A, List.mem_of_find?_eq_some hA, ?_⟩, l', hQ, ?_⟩
      · refine Set.Ico_subset_Ico le_rfl ?_
        simp only [Area.stop]
        omega
      · rw [harea, hmap]
        exact (takeArea_spec (hmap ▸ h.merged.apart) hle).2
    · rw [hcode] at h1
      cases h1
      exact absurd rfl herr

/-- No area has room for more than 4 GiB. -/
theorem WellFormed.not_carves (h : P.WellFormed l) {count addr : ℕ}
    (hcount : 2 ^ 32 ≤ count * kernelPageSize)
    (hcode : P.getBlock count = some (Q, addr, .noErr)) : ¬ P.Carves l count := by
  intro hc
  obtain ⟨⟨a, ha, hsub⟩, -⟩ := hc.taken Q addr hcode
  have hpos : 0 < count * kernelPageSize := by omega
  have hsize := (h.words a ha).1
  have hfirst := hsub (show addr ∈ Area.bytes ⟨addr, count * kernelPageSize⟩ from
    ⟨le_rfl, Nat.lt_add_of_pos_right hpos⟩)
  have hlast := hsub (show addr + (count * kernelPageSize - 1)
      ∈ Area.bytes ⟨addr, count * kernelPageSize⟩ from
    ⟨Nat.le_add_right _ _, Nat.add_lt_add_left (Nat.sub_one_lt_of_lt hpos) _⟩)
  simp only [Area.bytes, Area.stop, Set.mem_Ico] at hfirst hlast
  omega

/-- A call does as it is to when the size does not wrap, or when no area has even as many bytes as
what it wraps to. -/
theorem getBlock_carves_iff (h : P.WellFormed l) (count : ℕ) : P.Carves l count
    ↔ count * kernelPageSize < 2 ^ 32
      ∨ ∀ a ∈ l.map P.area, a.size < count * kernelPageSize % 2 ^ 32 := by
  by_cases hcount : count * kernelPageSize < 2 ^ 32
  · exact iff_of_true (h.carves hcount) (.inl hcount)
  have hneed : mul32 kernelPageSize count = count * kernelPageSize % 2 ^ 32 := by
    unfold mul32
    rw [Nat.mul_comm]
  simp only [hcount, false_or]
  rcases h.getBlock hneed with ⟨hnone, hcode⟩ | ⟨A, Q, l', u, v, hA, hcode, -, -, hle, -⟩
  · -- nothing is large enough for the size it looks for
    have hall : ∀ a ∈ l.map P.area, a.size < count * kernelPageSize % 2 ^ 32 := fun a ha =>
      Nat.lt_of_not_le fun hle => absurd (decide_eq_true hle) (List.find?_eq_none.1 hnone a ha)
    refine iff_of_true ⟨by simp [hcode], fun P' addr h1 => ?_, fun P' addr err h1 _ => ?_⟩ hall
    · rw [hcode] at h1
      cases h1
    · rw [hcode] at h1
      obtain ⟨rfl, -, -⟩ := h1
      exact ⟨rfl, fun a ha => (hall a ha).trans_le (Nat.mod_le _ _)⟩
  · -- an area is, but it has no room for the frames
    exact iff_of_false (h.not_carves (Nat.le_of_not_lt hcount) hcode) fun hall =>
      absurd (hall A (List.mem_of_find?_eq_some hA)) (Nat.not_lt.2 hle)

/-- One frame of the two. -/
theorem getBlock_carves_frame : gapPool.Carves [1, 2] 1 :=
  (getBlock_carves_iff gapPool_wellFormed 1).2 (.inl (by decide))

/-- 4 GiB of frames: the size wraps to 0, and the call succeeds and takes nothing. -/
theorem getBlock_not_carves : gapPool.WellFormed [1, 2]
    ∧ (∃ P', gapPool.getBlock 0x100000 = some (P', 0x1000, .noErr))
    ∧ ¬ gapPool.Carves [1, 2] 0x100000 := by
  have hrun : (gapPool.getBlock 0x100000).map Prod.snd = some (0x1000, .noErr) := by decide +kernel
  obtain ⟨⟨P', r⟩, hP', rfl⟩ := Option.map_eq_some_iff.1 hrun
  exact ⟨gapPool_wellFormed, ⟨P', hP'⟩, gapPool_wellFormed.not_carves (by decide) hP'⟩

end Pool

end RTLKIM

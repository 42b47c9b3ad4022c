import RTLKIM.Proofs.MemAllocFree

/-!
# The pool over whole runs

`Inv` is what every call keeps: the areas are apart, the live blocks are clear of them and of each
other, and together they are the bytes the pool was built with. A block that is clear of the areas
is never refused, so a free puts back what its allocation took. Some address is not the pool's, so that
the size of every area is a word.
-/

namespace RTLKIM

namespace PoolSys

open Pool

variable {s s' : PoolSys} {l : List ℕ} {free : Set ℕ} {b : ℕ × ℕ}

/-- Neither block runs into the other. -/
def Beside (a b : ℕ × ℕ) : Prop :=
  (frames a).stop ≤ (frames b).start ∨ (frames b).stop ≤ (frames a).start

theorem Beside.symm {a b : ℕ × ℕ} (h : Beside a b) : Beside b a := Or.symm h

structure Inv (free : Set ℕ) (s : PoolSys) (l : List ℕ) : Prop where
  list : s.pool.PoolList l
  bounded : ∀ a ∈ l.map s.pool.area, a.start < 2 ^ 32 ∧ a.stop ≤ 2 ^ 32
  apart : Apart (l.map s.pool.area)
  block : ∀ b ∈ s.live, 1 ≤ b.2 ∧ (frames b).stop ≤ 2 ^ 32 ∧ Clear (frames b) (l.map s.pool.area)
  live : s.live.Pairwise Beside
  covers : covered (l.map s.pool.area) ∪ covered (s.live.map frames) = free
  missing : ∃ g < 2 ^ 32, g ∉ free

theorem disjoint_bytes {a b : Area} (h : a.stop ≤ b.start ∨ b.stop ≤ a.start) :
    Disjoint a.bytes b.bytes := by
  rw [Set.disjoint_left]
  intro x hx hx'
  simp only [Area.bytes, Set.mem_Ico] at hx hx'
  omega

theorem Inv.words (h : Inv free s l) : s.pool.Words l := by
  intro n hn
  have ha : s.pool.area n ∈ l.map s.pool.area := List.mem_map_of_mem hn
  obtain ⟨g, hg, hgfree⟩ := h.missing
  have hgl : g ∉ covered (l.map s.pool.area) := fun hx => hgfree (h.covers ▸ .inl hx)
  exact ⟨size_lt_of_not_covered hg hgl ha (h.bounded _ ha).2, (h.bounded _ ha).2⟩

/-- No byte of a live block is free. -/
theorem Inv.not_mem_live (h : Inv free s l) {x : ℕ} (hx : x ∈ covered (l.map s.pool.area)) :
    x ∉ covered (s.live.map frames) := by
  rintro ⟨a, ha, hxa⟩
  obtain ⟨b, hb, rfl⟩ := List.mem_map.1 ha
  obtain ⟨c, hc, hxc⟩ := hx
  exact Set.disjoint_left.1 (disjoint_bytes ((h.block b hb).2.2 c hc)) hxc hxa

theorem Inv.shape (h : Inv free s l) : s.Shape free l where
  dll := h.list.dll
  alive := h.list.alive
  sorted := h.apart.sorted
  disjoint := h.apart.disjoint
  gaps := h.apart.gaps
  covers := by
    rw [← h.covers, Set.union_sdiff_right, sdiff_eq_left.2]
    exact Set.disjoint_left.2 fun x => h.not_mem_live
  live := List.pairwise_map.2 (h.live.imp fun {a b} hab => disjoint_bytes hab)

/-! ## Calls -/

/-- What a call that fills no gap before an area that is not the last may rely on. -/
theorem Inv.gap_of_not_fillsGap (h : Inv free s l) {start size : ℕ}
    (hfill : ¬ s.FillsGap start size)
    (u : List ℕ) (p c : ℕ) (v : List ℕ) (hl : l = u ++ p :: c :: v)
    (hp : (s.pool.area p).stop = start) (hc : start + size = (s.pool.nodes c).start) : v = [] := by
  have hnp : (s.pool.nodes p).next = c := h.list.next_of_split hl
  have hnc : (s.pool.nodes c).next = v.headD 0 :=
    h.list.next_of_split (u := u ++ [p]) (hl.trans (by simp))
  rcases v with _ | ⟨d, v⟩
  · rfl
  · refine absurd ⟨p, ?_, ?_, ?_, hp, ?_⟩ hfill
    · rw [h.list.areaList_eq, hl]
      simp
    · rw [hnp]
      exact h.list.ne_zero (by rw [hl]; simp)
    · rw [hnp, hnc]
      exact h.list.ne_zero (by rw [hl]; simp)
    · rw [hnp]
      exact hc

/-- What a list is once an area is in it. -/
theorem Inv.added (h : Inv free s l) {u v l' : List ℕ} {a : Area} {P' : Pool} (huv : l = u ++ v)
    (hfit : Fits (u.map s.pool.area) a (v.map s.pool.area)) (ha : a.start < 2 ^ 32 ∧ a.stop ≤ 2 ^ 32)
    (harea : l'.map P'.area = addArea (u.map s.pool.area) a (v.map s.pool.area)) :
    (∀ b ∈ l'.map P'.area, b.start < 2 ^ 32 ∧ b.stop ≤ 2 ^ 32) ∧ Apart (l'.map P'.area)
      ∧ covered (l'.map P'.area) = covered (l.map s.pool.area) ∪ a.bytes := by
  have hap := h.apart
  have hbd := h.bounded
  rw [huv, List.map_append] at hap hbd ⊢
  rw [harea]
  refine ⟨forall_mem_addArea (fun b c hbc hb hc => ?_) hbd ha, addArea_spec hap hfit⟩
  rw [Area.join_stop hbc]
  exact ⟨hb.1, hc.2⟩

/-- A block that is clear of the areas is added, if it leaves an address out. -/
theorem Inv.addClear (h : Inv free s l) {start size node g : ℕ} (hpos : 0 < size)
    (hb : start + size ≤ 2 ^ 32) (hclear : Clear ⟨start, size⟩ (l.map s.pool.area)) (hg : g < 2 ^ 32)
    (hgl : g ∉ covered (l.map s.pool.area) ∪ Area.bytes ⟨start, size⟩)
    (hfill : ¬ s.FillsGap start size) (hnode : s.FreshNode node) :
    ∃ P' u v l', s.pool.addFree start size node = some (P', .noErr) ∧ l = u ++ v
      ∧ Fits (u.map s.pool.area) ⟨start, size⟩ (v.map s.pool.area) ∧ P'.PoolList l'
      ∧ l'.map P'.area = addArea (u.map s.pool.area) ⟨start, size⟩ (v.map s.pool.area) := by
  have ha : start < 2 ^ 32 ∧ Area.stop ⟨start, size⟩ ≤ 2 ^ 32 := ⟨by omega, hb⟩
  have hsize : ∀ u v, l = u ++ v → Fits (u.map s.pool.area) ⟨start, size⟩ (v.map s.pool.area) →
      ∀ a ∈ addArea (u.map s.pool.area) ⟨start, size⟩ (v.map s.pool.area), a.size < 2 ^ 32 := by
    intro u v huv hfit a hmem
    have hap := h.apart
    have hbd := h.bounded
    rw [huv, List.map_append] at hap hbd hgl
    rw [← (addArea_spec hap hfit).2] at hgl
    refine size_lt_of_not_covered hg hgl hmem ?_
    refine forall_mem_addArea (Q := fun b => b.stop ≤ 2 ^ 32) (fun b c hbc _ hc => ?_)
      (fun b hbm => (hbd b hbm).2) ha.2 a hmem
    rwa [Area.join_stop hbc]
  obtain ⟨P', Q, u, v, l', hcode, -, hexact, huv, hfit, L', harea⟩ := h.list.addClear hclear hpos hb
    (fun n hn => (h.bounded _ (List.mem_map_of_mem hn)).1) hsize hnode.1 hnode.2
  -- no link back is stale, as no gap before an area that is not the last is filled
  obtain rfl := hexact fun w p c x hu hv => h.gap_of_not_fillsGap hfill w p c x (by rw [huv, hu, hv]; simp)
  exact ⟨Q, u, v, l', hcode, huv, hfit, L', harea⟩

/-- A build call in a pool where an end may be that of the address space. -/
theorem Inv.addUnlisted (h : Inv free s l) (hlive : s.live = []) {start size node : ℕ}
    (hnode : s.FreshNode node) (hun : s.Unlisted start size) (hfill : ¬ s.FillsGap start size) :
    ∃ s' free' l', s.call (.addFree start size node) = some s' ∧ Inv free' s' l' ∧ s'.live = [] := by
  obtain ⟨hpos, hb, hclear, hsum⟩ := hun
  rw [h.list.areaList_eq] at hclear hsum
  obtain ⟨g, hg, hgl⟩ := exists_not_covered
    (l := ⟨start, size⟩ :: l.map s.pool.area) (by rwa [List.map_cons, List.sum_cons])
  rw [covered_cons, Set.union_comm] at hgl
  obtain ⟨P', u, v, l', hcode, huv, hfit, L', harea⟩ := h.addClear hpos hb hclear hg hgl hfill hnode
  obtain ⟨hbd, hap, hcov⟩ := h.added huv hfit ⟨by dsimp only; omega, hb⟩ harea
  refine ⟨{ s with pool := P' }, covered (l'.map P'.area), l', ?_, ⟨L', hbd, hap, ?_, ?_, ?_, ?_⟩, hlive⟩
  · rw [call, hcode]
    rfl
  · simp [hlive]
  · rw [hlive]
    exact .nil
  · simp [hlive]
  · exact ⟨g, hg, hcov ▸ hgl⟩

/-- A build call in a pool where no end is that of the address space. -/
theorem Inv.addBelow (h : Inv free s l) (hlive : s.live = []) {start size node : ℕ}
    (hnode : s.FreshNode node) (hb : start + size < 2 ^ 32) (hends : s.EndsBelow)
    (hclear : s.ClearOfFirst start size) (hfill : ¬ s.FillsGap start size) :
    ∃ s' free' l', s.call (.addFree start size node) = some s' ∧ Inv free' s' l' ∧ s'.live = [] := by
  have hfirst : ∀ c ∈ l.head?,
      (s.pool.nodes c).start ≤ start ∨ start + size ≤ (s.pool.nodes c).start := by
    intro c hc
    have hlist : s.pool.list = c := by
      rw [h.list.dll.head, List.headD_eq_head?_getD, hc]
      rfl
    unfold ClearOfFirst at hclear
    rw [hlist] at hclear
    exact hclear.resolve_left (h.list.ne_zero (List.mem_of_mem_head? hc))
  have hbelow : s.pool.Bounded l := fun n hn => hends n (h.list.areaList_eq ▸ hn)
  obtain ⟨P', err, u, v, hcode, huv, -, -, hcase⟩ := h.list.addFree hbelow hb hnode.1 hnode.2 hfirst
    (h.gap_of_not_fillsGap hfill)
  have hrun : s.call (.addFree start size node) = some { s with pool := P' } := by
    rw [call, hcode]
    rfl
  rcases hcase with ⟨-, rfl, -⟩ | ⟨-, hfit, l', L', harea⟩
  · exact ⟨s, free, l, hrun, h, hlive⟩
  obtain ⟨hbd, hap, hcov⟩ := h.added huv hfit ⟨by dsimp only; omega, hb.le⟩ harea
  refine ⟨_, covered (l'.map P'.area), l', hrun, ⟨L', hbd, hap, ?_, ?_, ?_, 2 ^ 32 - 1, by decide, ?_⟩,
    hlive⟩
  · simp [hlive]
  · rw [hlive]
    exact .nil
  · simp [hlive]
  · -- the last address is in no area, as none ends after it
    rw [hcov]
    rintro (⟨a, ha, hx⟩ | hx)
    · obtain ⟨n, hn, rfl⟩ := List.mem_map.1 ha
      exact Nat.not_lt.2 (Nat.le_sub_one_of_lt (hbelow n hn)) hx.2
    · exact Nat.not_lt.2 (Nat.le_sub_one_of_lt hb) hx.2

/-- A build call. -/
theorem Inv.addFree (h : Inv free s l) (hlive : s.live = []) {start size node : ℕ}
    (hcall : s.Callable (.addFree start size node)) (hok : s.Builds (.addFree start size node)) :
    ∃ s' free' l', s.call (.addFree start size node) = some s' ∧ Inv free' s' l'
      ∧ s'.live = [] := by
  obtain ⟨-, -, hnode⟩ := hcall
  obtain ⟨⟨hb, hends, hclear⟩ | hun, hfill⟩ := hok
  · exact h.addBelow hlive hnode hb hends hclear hfill
  · exact h.addUnlisted hlive hnode hun hfill

theorem Inv.allocKframes (h : Inv free s l) {count : ℕ} (hcall : s.Callable (.allocKframes count)) :
    ∃ s' l', s.call (.allocKframes count) = some s' ∧ Inv free s' l' := by
  obtain ⟨hpos, hcount⟩ := hcall
  rcases h.list.getBlock h.words hcount with ⟨hcode, -⟩ |
    ⟨u, n, v, l', P', hcode, hl, hsize, hl', harea⟩
  · refine ⟨s, l, ?_, h⟩
    rw [call, hcode]
    rfl
  have hmap : l.map s.pool.area
      = u.map s.pool.area ++ s.pool.area n :: v.map s.pool.area := by
    rw [hl, List.map_append, List.map_cons]
  have hap := h.apart
  have hbd := h.bounded
  have hcov := h.covers
  rw [hmap] at hap hbd hcov
  have hn : count * kernelPageSize ≤ (s.pool.area n).size := hsize
  have hspec := takeArea_spec hap hn
  have hstop : (s.pool.area n).stop ≤ 2 ^ 32 := (hbd _ (by simp)).2
  have htaken : (frames ((s.pool.nodes n).start, count)).bytes ⊆ (s.pool.area n).bytes := by
    intro x hx
    simp only [frames, Area.bytes, Area.stop, Set.mem_Ico] at hx hn ⊢
    exact ⟨hx.1, by have : (s.pool.area n).start = (s.pool.nodes n).start := rfl; omega⟩
  refine ⟨⟨P', ((s.pool.nodes n).start, count) :: s.live⟩, l', ?_, ⟨hl', ?_, ?_, ?_, ?_, ?_, h.missing⟩⟩
  · rw [call, hcode]
    rfl
  · rw [harea]
    refine forall_mem_takeArea hbd fun hne h => ?_
    simp only [Area.stop] at h hn ⊢
    omega
  · rw [harea]
    exact hspec.1
  · intro b hb
    rw [harea]
    rcases List.mem_cons.1 hb with rfl | hb
    · refine ⟨hpos, ?_, Clear.taken hap hn⟩
      simp only [frames, Area.stop, area] at hstop hsize ⊢
      omega
    · obtain ⟨h1, h2, h3⟩ := h.block b hb
      rw [hmap] at h3
      exact ⟨h1, h2, h3.takeArea hn⟩
  · refine List.pairwise_cons.2 ⟨fun b hb => ?_, h.live⟩
    have hclear := (h.block b hb).2.2 (s.pool.area n) (by rw [hmap]; simp)
    have hb1 := (h.block b hb).1
    simp only [Beside, frames, Area.stop, area, kernelPageSize] at hclear hsize hb1 ⊢
    omega
  · rw [harea, hspec.2, List.map_cons, covered_cons, ← hcov]
    ext x
    have hx := @htaken x
    have hx' : x ∈ (frames ((s.pool.nodes n).start, count)).bytes
        ↔ x ∈ Set.Ico (s.pool.area n).start ((s.pool.area n).start + count * kernelPageSize) := Iff.rfl
    have hcn : x ∈ (s.pool.area n).bytes
        → x ∈ covered (u.map s.pool.area ++ s.pool.area n :: v.map s.pool.area) :=
      fun h => ⟨_, by simp, h⟩
    rw [Set.mem_union, Set.mem_union, Set.mem_sdiff, Set.mem_union, ← hx']
    tauto

/-- The bytes of a live block and of the others. -/
theorem covered_erase {live : List (ℕ × ℕ)} (hb : b ∈ live) :
    covered (live.map frames) = (frames b).bytes ∪ covered ((live.erase b).map frames) := by
  rw [← covered_cons, ← List.map_cons]
  ext x
  unfold covered
  simp only [List.mem_map, Set.mem_ofPred_eq]
  constructor
  · rintro ⟨a, ⟨c, hc, rfl⟩, hx⟩
    exact ⟨_, ⟨c, (List.perm_cons_erase hb).mem_iff.1 hc, rfl⟩, hx⟩
  · rintro ⟨a, ⟨c, hc, rfl⟩, hx⟩
    exact ⟨_, ⟨c, (List.perm_cons_erase hb).mem_iff.2 hc, rfl⟩, hx⟩

/-- A block freed goes back: it is clear of the areas, so nothing refuses it. -/
theorem Inv.freeKframes (h : Inv free s l) {addr count node : ℕ}
    (hcall : s.Callable (.freeKframes addr count node))
    (hok : s.Uses (.freeKframes addr count node)) :
    ∃ s' l', s.call (.freeKframes addr count node) = some s' ∧ Inv free s' l' := by
  obtain ⟨hmem, hnode⟩ := hcall
  obtain ⟨hpos, hb, hclear⟩ := h.block _ hmem
  have hpos' : 0 < count * kernelPageSize := Nat.mul_pos hpos (by decide)
  have hb' : addr + count * kernelPageSize ≤ 2 ^ 32 := hb
  have hcov := h.covers
  rw [covered_erase hmem, ← Set.union_assoc] at hcov
  obtain ⟨g, hg, hgfree⟩ := h.missing
  have hgl : g ∉ covered (l.map s.pool.area) ∪ Area.bytes ⟨addr, count * kernelPageSize⟩ :=
    fun hx => hgfree (hcov ▸ .inl hx)
  obtain ⟨P', u, v, l', hcode, huv, hfit, L', harea⟩ := h.addClear hpos' hb' hclear hg hgl hok hnode
  have hsize : count * kernelPageSize < 2 ^ 32 := by
    refine size_lt_of_not_covered (a := frames (addr, count)) (l := [frames (addr, count)]) hg ?_
      (by simp) hb
    rw [covered_cons, covered_nil, Set.union_empty]
    exact fun hx => hgl (.inr hx)
  have haddr : addr < 2 ^ 32 := (Nat.lt_add_of_pos_right hpos').trans_le hb'
  obtain ⟨hbd, hap, hcov'⟩ := h.added huv hfit ⟨haddr, hb⟩ harea
  have hpw := (List.perm_cons_erase hmem).pairwise_iff (fun {a b} h => Beside.symm h) |>.1 h.live
  refine ⟨⟨P', s.live.erase (addr, count)⟩, l', ?_, ⟨L', hbd, hap, fun b hb => ?_,
    (List.pairwise_cons.1 hpw).2, ?_, h.missing⟩⟩
  · rw [call, mul32_of_lt hsize, hcode]
    rfl
  · obtain ⟨h1, h2, h3⟩ := h.block b (List.mem_of_mem_erase hb)
    rw [huv, List.map_append] at h3
    refine ⟨h1, h2, ?_⟩
    rw [harea]
    refine h3.addArea (fun a ha => ?_) (Nat.mul_pos h1 (by decide))
    rw [List.mem_singleton.1 ha]
    exact (List.pairwise_cons.1 hpw).1 b hb
  · rw [hcov']
    exact hcov

/-! ## Runs -/

/-- Before the first build call there is no area. -/
theorem Inv.empty : Inv ∅ PoolSys.empty [] where
  list := ⟨Dll.nil, by simp⟩
  bounded := by simp
  apart := .nil
  block := by simp [PoolSys.empty]
  live := .nil
  covers := by simp [PoolSys.empty]
  missing := ⟨0, by decide, by simp⟩

theorem Inv.of_build (h : Reach step Builds PoolSys.empty s) :
    s.live = [] ∧ Inv (covered (s.pool.areaList.map s.pool.area)) s s.pool.areaList := by
  obtain ⟨free, l, hinv, hlive⟩ : ∃ free l, Inv free s l ∧ s.live = [] := by
    refine h.invariant (P := fun s => ∃ free l, Inv free s l ∧ s.live = []) ⟨∅, [], .empty, rfl⟩ ?_
    rintro s e s' ⟨free, l, hinv, hlive⟩ hok hstep
    unfold step at hstep
    split_ifs at hstep with hcall
    cases e with
    | addFree start size node =>
      obtain ⟨t, free', l', hrun, hinv', hlive'⟩ := hinv.addFree hlive hcall hok
      rw [hrun, Option.some_inj] at hstep
      exact hstep ▸ ⟨free', l', hinv', hlive'⟩
    | allocKframes count => exact hok.elim
    | freeKframes addr count node => exact hok.elim
  have hcov := hinv.covers
  have hl := hinv.list.areaList_eq
  rw [hlive, List.map_nil, covered_nil, Set.union_empty] at hcov
  rw [hl, hcov]
  exact ⟨hlive, hinv⟩

/-- A call that may happen returns, and keeps the invariant. -/
theorem Inv.use (h : Inv free s l) {e : PoolEv} (hcall : s.Callable e) (hok : s.Uses e) :
    ∃ s' l', s.call e = some s' ∧ Inv free s' l' := by
  cases e with
  | addFree start size node => exact hok.elim
  | allocKframes count => exact h.allocKframes hcall
  | freeKframes addr count node => exact h.freeKframes hcall hok

theorem Inv.run {s₀ : PoolSys} (h₀ : Inv free s₀ l) (h : Reach step Uses s₀ s) :
    ∃ l', Inv free s l' := by
  refine h.invariant (P := fun s => ∃ l', Inv free s l') ⟨l, h₀⟩ ?_
  rintro s e s' ⟨l', hinv⟩ hok hstep
  unfold step at hstep
  split_ifs at hstep with hcall
  obtain ⟨t, l'', hrun, hinv'⟩ := hinv.use hcall hok
  rw [hrun, Option.some_inj] at hstep
  exact hstep ▸ ⟨l'', hinv'⟩

/-- In every run that fills no gap before an area that is not the last, the list is what is left of
the areas the pool was built with; and every such call returns. -/
theorem run_pool {s₀ : PoolSys} (h₀ : Reach step Builds PoolSys.empty s₀)
    (h : Reach step Uses s₀ s) :
    (∃ l, s.Shape (covered (s₀.pool.areaList.map s₀.pool.area)) l)
      ∧ ∀ e, s.Callable e → s.Uses e → ∃ s', s.call e = some s' := by
  obtain ⟨l, hinv⟩ := (Inv.of_build h₀).2.run h
  refine ⟨⟨l, hinv.shape⟩, fun e hcall hok => ?_⟩
  obtain ⟨s', -, hrun, -⟩ := hinv.use hcall hok
  exact ⟨s', hrun⟩

/-- Two areas, two frames taken from the first and one of them given back. -/
theorem run_pool_two_areas : ∃ s₀ s : PoolSys, Reach step Builds PoolSys.empty s₀
    ∧ Reach step Uses s₀ s ∧ s.live = [(0x2000, 1)]
    ∧ (∃ l, s.Shape (covered (s₀.pool.areaList.map s₀.pool.area)) l)
    ∧ ∀ e, s.Callable e → s.Uses e → ∃ s', s.call e = some s' := by
  have hrun : ((runEvents (guarded step Builds) empty
      [.addFree 0x1000 0x3000 1, .addFree 0x5000 0x1000 2]).bind fun s₀ =>
      (runEvents (guarded step Uses) s₀
        [.allocKframes 1, .allocKframes 1, .freeKframes 0x1000 1 3]).map fun s => s.live)
      = some [(0x2000, 1)] := by decide +kernel
  obtain ⟨s₀, h₀, hrun⟩ := Option.bind_eq_some_iff.1 hrun
  obtain ⟨s, h, hlive⟩ := Option.map_eq_some_iff.1 hrun
  exact ⟨s₀, s, .of_run h₀, .of_run h, hlive, run_pool (.of_run h₀) (.of_run h)⟩

/-- The frame between the first two of three areas, freed last: the two are joined, and the third
still points back to the node that was freed. -/
theorem not_shape_stale_prev : ∃ s₀ s : PoolSys,
    runEvents step empty [.addFree 0x1000 0x3000 1, .addFree 0x5000 0x1000 2] = some s₀
    ∧ runEvents step s₀ [.allocKframes 1, .allocKframes 1, .freeKframes 0x1000 1 3,
      .freeKframes 0x2000 1 4] = some s
    ∧ ¬ ∃ l, s.Shape (covered (s₀.pool.areaList.map s₀.pool.area)) l := by
  have hrun : ((runEvents step empty
      [.addFree 0x1000 0x3000 1, .addFree 0x5000 0x1000 2]).bind fun s₀ =>
      (runEvents step s₀
        [.allocKframes 1, .allocKframes 1, .freeKframes 0x1000 1 3, .freeKframes 0x2000 1 4]).map
        fun s => (s.pool.list, (s.pool.nodes s.pool.list).next, (s.pool.nodes 2).prev))
      = some (3, 2, 1) := by decide +kernel
  obtain ⟨s₀, h₀, hrun⟩ := Option.bind_eq_some_iff.1 hrun
  obtain ⟨s, h, hs⟩ := Option.map_eq_some_iff.1 hrun
  obtain ⟨hlist, hnext, hprev⟩ : s.pool.list = 3 ∧ (s.pool.nodes s.pool.list).next = 2
      ∧ (s.pool.nodes 2).prev = 1 := by simpa using hs
  refine ⟨s₀, s, h₀, h, ?_⟩
  rintro ⟨l, hshape⟩
  have L : s.pool.PoolList l := ⟨hshape.dll, hshape.alive⟩
  rw [hlist] at hnext
  have hhead := hshape.dll.head
  rw [hlist] at hhead
  rcases l with _ | ⟨a, _ | ⟨b, l⟩⟩
  · simp at hhead
  · obtain rfl : 3 = a := hhead
    have := L.next_of_split (u := []) rfl
    simp [hnext] at this
  · obtain rfl : 3 = a := hhead
    obtain rfl : 2 = b := hnext.symm.trans (L.next_of_split (u := []) rfl)
    have : (s.pool.nodes 2).prev = 3 := L.prev_of_split (u := [3]) rfl
    omega

end PoolSys

end RTLKIM

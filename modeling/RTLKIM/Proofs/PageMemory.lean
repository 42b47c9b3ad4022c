import RTLKIM.PageMemory
import RTLKIM.Proofs.Paging

/-!
# The tables in memory are the tables of `Paging`

`Sim S s p` says the memory of `s` has the directory and the tables of `p`, below the window, each
in a frame of its own and out of the free frames `S`. The loops read and write the same words
through the window as in `Paging`, so a call does to the memory what it does to the tables there
(`kernelMmapInternal_sim`); the frames of new tables come from `S`, and so they are nobody's.
-/

namespace RTLKIM

theorem entryFrame_packed {f k : ℕ} (hf : f < Pool.frameCount) (hk : k < 4096) :
    entryFrame (f * kernelPageSize ||| k) = f := by
  unfold entryFrame
  rw [packed_and_mask hf hk, Nat.mul_div_cancel _ (by decide)]

namespace PageMemory

variable {s : PageMemory} {d i w : ℕ}

/-! ## Words through the window -/

theorem readDir_eq (h : s.memory.Recursive) (hd : d < 1024) :
    s.readDir d = some (s.memory.dirWord d) := h.loadDir hd

theorem readTable_eq (h : s.memory.Recursive) (hd : d < 1024) (hi : i < 1024) (hp : s.Present d) :
    s.readTable d i = some (s.memory.word (s.tableFrame d) i) := h.load hd hi hp

theorem writeDir_eq (h : s.memory.Recursive) (hd : d < 1024) :
    s.writeDir d w = some { s with memory := s.memory.setWord s.memory.cr3 d w } := by
  have hst : s.memory.store (pagingRecurPgDir + 4 * d) w = _ := h.storeDir hd
  rw [writeDir, hst]
  rfl

theorem writeTable_eq (h : s.memory.Recursive) (hd : d < 1024) (hi : i < 1024) (hp : s.Present d) :
    s.writeTable d i w = some { s with memory := s.memory.setWord (s.tableFrame d) i w } := by
  have hst : s.memory.store (pagingRecurPgTable + kernelPageSize * d + 4 * i) w = _ :=
    h.store hd hi hp
  rw [writeTable, hst]
  rfl

theorem pgdirEntry_lt {addr : ℕ} (h : addr < 2 ^ 32) : pgdirEntry addr < 1024 := by
  rw [pgdirEntry, Nat.shiftRight_eq_div_pow]
  omega

theorem pgtableEntry_lt (addr : ℕ) : pgtableEntry addr < 1024 :=
  Nat.and_lt_two_pow _ (by decide : 0x3FF < 2 ^ 10)

/-- `is_mapped` checks the pages of `paging`. -/
theorem checkPage_eq (h : s.memory.Recursive) (b : Bool) {addr : ℕ} (haddr : addr < 2 ^ 32) :
    s.checkPage b addr = s.paging.checkPage b addr := by
  have hd := pgdirEntry_lt haddr
  unfold checkPage Paging.checkPage
  rw [readDir_eq h hd, Option.bind_some]
  by_cases hp : s.memory.dirWord (pgdirEntry addr) &&& pageFlagPresent ≠ 0
  · have hp' : s.paging.Present (pgdirEntry addr) := hp
    rw [if_pos hp, readTable_eq h hd (pgtableEntry_lt addr) hp, Option.map_some]
    simp only [hp', true_and]
    by_cases hm : s.paging.Mapped (pgdirEntry addr) (pgtableEntry addr)
    · rw [if_pos hm]
      exact congrArg some (if_pos hm)
    · rw [if_neg hm]
      exact congrArg some (if_neg hm)
  · have hp' : ¬ s.paging.Present (pgdirEntry addr) := hp
    rw [if_neg hp, if_neg fun h => hp' h.1]

theorem isMapped_eq (h : s.memory.Recursive) (startAddr size : ℕ) :
    s.isMapped startAddr size = s.paging.isMapped startAddr size :=
  sweep_congr (fun b _ haddr => checkPage_eq h b haddr) _ _ _ _
    (Nat.and_lt_two_pow _ (by decide : pageAlignMask < 2 ^ 32))

/-! ## Related states -/

structure Sim (S : Set ℕ) (s : PageMemory) (p : Paging) : Prop where
  recursive : s.memory.Recursive
  dir : ∀ d < 1024, s.memory.dirWord d = p.pgdir d
  table : ∀ d < 1023, p.Present d → ∀ i < 1024, s.memory.word (s.tableFrame d) i = p.pgtable d i
  own : ∀ d < 1024, ∀ d' < 1024, s.Present d → s.Present d' → s.tableFrame d = s.tableFrame d' →
    d = d'
  taken : ∀ d < 1024, s.Present d → s.tableFrame d ∉ S
  pool : s.pool = p.pool
  linked : s.pool.Linked S
  missing : ∃ g < Pool.frameCount, g ∉ S

namespace Sim

variable {S : Set ℕ} {p : Paging} (h : Sim S s p)

include h

theorem present (hd : d < 1024) : s.Present d ↔ p.Present d := by
  unfold PageMemory.Present Paging.Present
  rw [h.dir d hd]

/-- No table below the window is the directory. -/
theorem tableFrame_ne (hd : d < 1023) (hp : s.Present d) : s.tableFrame d ≠ s.memory.cr3 := by
  intro he
  have := h.own d (by omega) 1023 (by decide) hp h.recursive.present (he.trans h.recursive.frame.symm)
  omega

/-- A page mapped, or unmapped. -/
theorem setEntry (hd : d < 1023) (hi : i < 1024) (hp : s.Present d) (w : ℕ) :
    Sim S { s with memory := s.memory.setWord (s.tableFrame d) i w } (p.setEntry d i w) := by
  have hne := h.tableFrame_ne hd hp
  have hdir : ∀ x, (s.memory.setWord (s.tableFrame d) i w).dirWord x = s.memory.dirWord x := fun x =>
    Memory.setWord_of_frame_ne hne.symm x
  have hframe : ∀ x, tableFrame { s with memory := s.memory.setWord (s.tableFrame d) i w } x
      = s.tableFrame x := fun x => congrArg entryFrame (hdir x)
  have hpres : ∀ x, Present { s with memory := s.memory.setWord (s.tableFrame d) i w } x
      ↔ s.Present x := fun x => by
    unfold PageMemory.Present
    rw [hdir]
  refine ⟨⟨?_, ?_⟩, fun x hx => (hdir x).trans (h.dir x hx), fun x hx hxp k hk => ?_,
    fun x hx y hy hxp hyp hxy => ?_, fun x hx hxp => ?_, h.pool, h.linked, h.missing⟩
  · rw [hdir]
    exact h.recursive.present
  · rw [hdir]
    exact h.recursive.frame
  · rw [hframe]
    by_cases hxk : x = d ∧ k = i
    · obtain ⟨rfl, rfl⟩ := hxk
      rw [Paging.setEntry_self]
      exact Memory.setWord_self
    · have hsame : (s.memory.setWord (s.tableFrame d) i w).word (s.tableFrame x) k
          = s.memory.word (s.tableFrame x) k := by
        refine Memory.setWord_of_ne fun hf hki => ?_
        have hxs : s.Present x := (h.present (by omega)).2 hxp
        exact hxk ⟨h.own x (by omega) d (by omega) hxs hp hf, hki⟩
      rw [Paging.setEntry_of_ne fun hxd hki => hxk ⟨hxd, hki⟩]
      exact hsame.trans (h.table x hx hxp k hk)
  · rw [hframe, hframe] at hxy
    exact h.own x hx y hy ((hpres x).1 hxp) ((hpres y).1 hyp) hxy
  · rw [hframe]
    exact h.taken x hx ((hpres x).1 hxp)

end Sim

/-! ## A new table -/

/-- The loop zeroes the entries of the table and touches nothing else. -/
theorem zeroTable_spec (hd : d < 1024) : ∀ (is : List ℕ) (s : PageMemory), s.memory.Recursive →
    s.Present d → s.tableFrame d ≠ s.memory.cr3 → (∀ i ∈ is, i < 1024) →
    ∃ m, zeroTable d is s = some { s with memory := m } ∧ m.cr3 = s.memory.cr3
      ∧ (∀ f ≠ s.tableFrame d, m.word f = s.memory.word f)
      ∧ ∀ i, i ∈ is ∨ s.memory.word (s.tableFrame d) i = 0 → m.word (s.tableFrame d) i = 0
  | [], s, _, _, _, _ => ⟨s.memory, rfl, rfl, fun _ _ => rfl, by simp⟩
  | i :: is, s, hrec, hp, hne, hi => by
    have hdir : ∀ x, (s.memory.setWord (s.tableFrame d) i 0).dirWord x = s.memory.dirWord x :=
      fun x => Memory.setWord_of_frame_ne hne.symm x
    set s₁ : PageMemory := { s with memory := s.memory.setWord (s.tableFrame d) i 0 } with hs₁
    have hframe : s₁.tableFrame d = s.tableFrame d := congrArg entryFrame (hdir d)
    have hrec₁ : s₁.memory.Recursive := by
      refine ⟨?_, ?_⟩
      · rw [hdir]
        exact hrec.present
      · rw [hdir]
        exact hrec.frame
    have hp₁ : s₁.Present d := by
      unfold Present
      rw [hdir]
      exact hp
    obtain ⟨m, hm, hcr3, hother, hzero⟩ := zeroTable_spec hd is s₁ hrec₁ hp₁ (by rwa [hframe])
      fun x hx => hi x (List.mem_cons_of_mem i hx)
    rw [hframe] at hother hzero
    refine ⟨m, ?_, hcr3, fun f hf => ?_, fun x hx => ?_⟩
    · rw [zeroTable, writeTable_eq hrec hd (hi i (by simp)) hp, Option.bind_some]
      exact hm
    · rw [hother f hf]
      exact funext fun x => Memory.setWord_of_frame_ne hf x
    · refine hzero x ?_
      by_cases hxi : x = i
      · subst hxi
        exact .inr Memory.setWord_self
      · refine hx.imp (fun hx => (List.mem_cons.1 hx).resolve_left hxi) fun hx => ?_
        rw [← hx]
        exact Memory.setWord_of_ne fun _ => hxi

/-- A table made in the frame `f`: its entry, and its words zeroed. -/
theorem newTable_spec (hrec : s.memory.Recursive) (hd : d < 1023) {f : ℕ} (hf : f ≠ s.memory.cr3)
    (hw : entryFrame w = f) (hp : w &&& pageFlagPresent ≠ 0) :
    ∃ m, (s.writeDir d w).bind (zeroTable d (List.range kernelPgdirSize))
        = some { s with memory := m }
      ∧ m.cr3 = s.memory.cr3 ∧ m.dirWord d = w ∧ (∀ x ≠ d, m.dirWord x = s.memory.dirWord x)
      ∧ (∀ g ≠ f, g ≠ s.memory.cr3 → m.word g = s.memory.word g) ∧ ∀ i < 1024, m.word f i = 0 := by
  set s₁ : PageMemory := { s with memory := s.memory.setWord s.memory.cr3 d w } with hs₁
  have hself : s₁.memory.dirWord d = w := Memory.setWord_self
  have hdir : ∀ x ≠ d, s₁.memory.dirWord x = s.memory.dirWord x := fun x hx =>
    Memory.setWord_of_ne fun _ => hx
  have hrec₁ : s₁.memory.Recursive := by
    refine ⟨?_, ?_⟩
    · rw [hdir 1023 (by omega)]
      exact hrec.present
    · rw [hdir 1023 (by omega)]
      exact hrec.frame
  have hframe : s₁.tableFrame d = f := by
    unfold tableFrame
    rw [hself, hw]
  have hp₁ : s₁.Present d := by
    unfold Present
    rwa [hself]
  obtain ⟨m, hm, hcr3, hother, hzero⟩ := zeroTable_spec (by omega) (List.range kernelPgdirSize) s₁
    hrec₁ hp₁ (by rwa [hframe]) fun i hi => List.mem_range.1 hi
  rw [hframe] at hother hzero
  have hmdir : ∀ x, m.dirWord x = s₁.memory.dirWord x := by
    intro x
    unfold Memory.dirWord
    rw [hcr3]
    exact congrFun (hother _ hf.symm) x
  refine ⟨m, ?_, hcr3, (hmdir d).trans hself, fun x hx => (hmdir x).trans (hdir x hx),
    fun g hg hgc => ?_, fun i hi => hzero i (.inl (List.mem_range.2 hi))⟩
  · rw [writeDir_eq hrec (by omega), Option.bind_some]
    exact hm
  · rw [hother g hg]
    exact funext fun x => Memory.setWord_of_frame_ne hgc x

namespace Sim

variable {S : Set ℕ} {p q : Paging} {err : PoolErr} (h : Sim S s p)

include h

/-- A table in a free frame. -/
theorem newTable (hd : d < 1023) {f : ℕ} {P : Pool} (hf : f ∈ S) (hfb : f < Pool.frameCount)
    (hP : P.Linked (S \ {f})) :
    ∃ s', ((s.setPool P).writeDir d (f * kernelPageSize ||| 3)).bind
        (zeroTable d (List.range kernelPgdirSize)) = some s' ∧ s'.Present d
      ∧ Sim (S \ {f}) s' (((p.setPool P).setDir d (f * kernelPageSize ||| 3)).zeroTable d) := by
  have hcr3 : f ≠ s.memory.cr3 := by
    intro he
    have := h.taken 1023 (by decide) h.recursive.present
    rw [tableFrame, h.recursive.frame, ← he] at this
    exact this hf
  have hfw : entryFrame (f * kernelPageSize ||| 3) = f := entryFrame_packed hfb (by decide)
  have hpw : (f * kernelPageSize ||| 3) &&& pageFlagPresent ≠ 0 :=
    (holdsFrame_table hfb).present
  obtain ⟨m, hm, hmcr3, hself, hdir, hother, hzero⟩ :=
    newTable_spec (s := s.setPool P) h.recursive hd hcr3 hfw hpw
  set s' : PageMemory := { s.setPool P with memory := m } with hs'
  have holdp : ∀ x ≠ d, s'.Present x → s.Present x := by
    intro x hx hxp
    unfold PageMemory.Present at hxp ⊢
    rwa [hdir x hx] at hxp
  have holdf : ∀ x ≠ d, s'.tableFrame x = s.tableFrame x := fun x hx => congrArg entryFrame (hdir x hx)
  have hnewf : s'.tableFrame d = f := (congrArg entryFrame hself).trans hfw
  -- the frame of the new table is nobody's
  have hnot : ∀ x < 1024, x ≠ d → s'.Present x → s'.tableFrame x ≠ f := by
    intro x hx hxd hxp he
    rw [holdf x hxd] at he
    exact h.taken x hx (holdp x hxd hxp) (he ▸ hf)
  have hpres : s'.Present d := by
    unfold PageMemory.Present
    rwa [hself]
  refine ⟨s', hm, hpres, ⟨?_, ?_⟩, fun x hx => ?_, fun x hx hxp i hi => ?_,
    fun x hx y hy hxp hyp hxy => ?_, fun x hx hxp hmem => ?_, rfl, hP, ?_⟩
  · rw [hdir 1023 (by omega)]
    exact h.recursive.present
  · rw [hdir 1023 (by omega)]
    exact h.recursive.frame.trans hmcr3.symm
  · by_cases hxd : x = d
    · subst hxd
      rw [hself, Paging.zeroTable_pgdir, Paging.setDir_self]
    · rw [hdir x hxd, Paging.zeroTable_pgdir, Paging.setDir_of_ne hxd]
      exact h.dir x hx
  · by_cases hxd : x = d
    · subst hxd
      rw [hnewf, Paging.zeroTable_self hi]
      exact hzero i hi
    · have hxp' : p.Present x := by
        unfold Paging.Present at hxp ⊢
        rwa [Paging.zeroTable_pgdir, Paging.setDir_of_ne hxd] at hxp
      have hxs : s.Present x := (h.present (by omega)).2 hxp'
      have hxf : s.tableFrame x ≠ f := fun he => h.taken x (by omega) hxs (he ▸ hf)
      rw [holdf x hxd, hother _ hxf (h.tableFrame_ne hx hxs), Paging.zeroTable,
        Paging.setTable_of_ne hxd]
      exact h.table x hx hxp' i hi
  · by_cases hxd : x = d
    · by_contra hne
      have hyd : y ≠ d := fun e => hne (hxd.trans e.symm)
      rw [hxd, hnewf] at hxy
      exact hnot y hy hyd hyp hxy.symm
    · by_cases hyd : y = d
      · rw [hyd, hnewf] at hxy
        exact absurd hxy (hnot x hx hxd hxp)
      · rw [holdf x hxd, holdf y hyd] at hxy
        exact h.own x hx y hy (holdp x hxd hxp) (holdp y hyd hyp) hxy
  · by_cases hxd : x = d
    · rw [hxd, hnewf] at hmem
      exact hmem.2 rfl
    · rw [holdf x hxd] at hmem
      exact h.taken x hx (holdp x hxd hxp) hmem.1
  · obtain ⟨g, hg, hgS⟩ := h.missing
    exact ⟨g, hg, fun hx => hgS hx.1⟩

/-- The table of a directory entry, there, new or wanting, in both. -/
theorem allocTable (hd : d < 1023) (hq : p.allocTable d = some (q, err)) :
    ∃ s', s.allocTable d = some (s', err) ∧ (err = .noErr → s'.Present d) ∧ ∃ S', Sim S' s' q := by
  unfold PageMemory.allocTable
  unfold Paging.allocTable at hq
  rw [readDir_eq h.recursive (by omega), Option.bind_some]
  by_cases hp : s.memory.dirWord d &&& pageFlagPresent ≠ 0
  · rw [if_pos ((h.present (by omega)).1 hp)] at hq
    rw [if_pos hp]
    obtain ⟨rfl, rfl⟩ := Prod.mk.inj (Option.some.inj hq)
    exact ⟨s, rfl, fun _ => hp, S, h⟩
  · rw [if_neg fun hp' => hp ((h.present (by omega)).2 hp')] at hq
    rw [if_neg hp]
    obtain ⟨g, hg, hgS⟩ := h.missing
    rw [← h.pool] at hq
    rcases h.linked.getBlock hg hgS (by decide : 1 < Pool.frameCount) with
      ⟨hb, -⟩ | ⟨P, f, hb, hfb, hfS, hP, -⟩
    · rw [hb] at hq ⊢
      obtain ⟨rfl, rfl⟩ := Prod.mk.inj (Option.some.inj hq)
      refine ⟨s, rfl, by simp, S, ?_⟩
      rw [h.pool]
      exact h
    · rw [hb] at hq ⊢
      obtain ⟨rfl, rfl⟩ := Prod.mk.inj (Option.some.inj hq)
      rw [Ico_one] at hP
      obtain ⟨s', hs', hp', hsim⟩ := h.newTable hd (hfS f le_rfl (by omega)) (by omega) hP
      have hor : f * kernelPageSize ||| pageFlagReadWrite ||| pageFlagPresent
          = f * kernelPageSize ||| 3 := Nat.or_assoc _ _ _
      refine ⟨s', ?_, fun _ => hp', S \ {f}, ?_⟩
      · simp only [Option.bind_some, ne_eq, not_true_eq_false, if_false, hor]
        obtain ⟨s₁, hs₁, hz⟩ := Option.bind_eq_some_iff.1 hs'
        rw [hs₁, Option.bind_some, hz]
        rfl
      · rw [hor]
        exact hsim

end Sim

/-- The states of the two loops. -/
def LoopSim (s : MapState) (t : Paging.MapState) : Prop :=
  (∃ S, Sim S s.tables t.paging) ∧ s.physAlign = t.physAlign ∧ s.err = t.err

theorem LoopSim.mapPage {s : MapState} {t : Paging.MapState} (h : LoopSim s t)
    {readOnly cacheEnabled hardware : Bool} {j : ℕ} (hj : j < 1023 * 1024)
    {r : Paging.MapState × Bool}
    (hr : Paging.mapPage readOnly cacheEnabled hardware t (j * kernelPageSize) = some r) :
    ∃ r', mapPage readOnly cacheEnabled hardware s (j * kernelPageSize) = some r' ∧ r'.2 = r.2
      ∧ LoopSim r'.1 r.1 := by
  obtain ⟨⟨S, hS⟩, hphys, herr⟩ := h
  unfold PageMemory.mapPage
  unfold Paging.mapPage at hr
  rw [pgdirEntry_page, pgtableEntry_page] at hr ⊢
  obtain ⟨⟨q, e⟩, hq, hr⟩ := Option.map_eq_some_iff.1 hr
  obtain ⟨s', hs', hp, S', hS'⟩ := hS.allocTable (by omega) hq
  rw [hs', Option.bind_some]
  dsimp only at hr ⊢
  by_cases he : e = .noErr
  · rw [if_neg (not_not.2 he)] at hr ⊢
    rw [writeTable_eq hS'.recursive (by omega) (Nat.mod_lt _ (by decide)) (hp he), Option.map_some]
    subst hr
    refine ⟨_, rfl, rfl, ⟨S', ?_⟩, congrArg (add32 · _) hphys, rfl⟩
    rw [hphys]
    exact hS'.setEntry (by omega) (Nat.mod_lt _ (by decide)) (hp he) _
  · rw [if_pos he] at hr ⊢
    subst hr
    exact ⟨_, rfl, rfl, ⟨S', hS'⟩, hphys, rfl⟩

/-! ## Whole calls -/

/-- Well-formed tables are related to what is seen through the window. -/
theorem PageTables.sim (h : s.PageTables) : ∃ S, Sim S s s.paging := by
  obtain ⟨l, hl⟩ := h.pool
  obtain ⟨S, hS, hmiss⟩ := hl.linked
  refine ⟨S, h.recursive, fun _ _ => rfl, fun _ _ _ _ _ => rfl, h.own, fun d hd hp hmem => ?_, rfl, hS,
    hmiss⟩
  obtain ⟨a, ha, hf⟩ := (hS.chained.areas.mem_iff (by decide)).1 hmem
  exact h.taken d hd hp a ha hf

theorem Sim.pageTables {S : Set ℕ} {p : Paging} (h : Sim S s p) : s.PageTables := by
  obtain ⟨g, hg, hgS⟩ := h.missing
  refine ⟨h.recursive, h.own, fun d hd hp a ha hf => ?_, h.linked.pageAreas hg hgS⟩
  exact h.taken d hd hp ((h.linked.chained.areas.mem_iff (by decide)).2 ⟨a, ha, hf⟩)

/-- `kernel_mmap_internal` of a region below the window, in both. -/
theorem Sim.kernelMmapInternal {S : Set ℕ} (h : Sim S s s.paging)
    {virt phys size a n : ℕ} {readOnly cacheEnabled hardware : Bool} (exec : Bool) {q : Paging}
    {err : PagingErr} (hbase : a + n ≤ 1023 * 1024) (hvirt : virt &&& pageAlignMask = a * 4096)
    (h1 : add32 size (sub32 virt (a * 4096)) ≤ n * 4096)
    (hq : s.paging.kernelMmapInternal virt phys size readOnly cacheEnabled hardware = some (q, err)) :
    ∃ s', s.kernelMmapInternal virt phys size readOnly exec cacheEnabled hardware = some (s', err)
      ∧ ∃ S', Sim S' s' q := by
  unfold PageMemory.kernelMmapInternal
  unfold Paging.kernelMmapInternal at hq
  simp only [hvirt] at hq ⊢
  rw [isMapped_eq h.recursive]
  obtain ⟨b, hb, hq⟩ := Option.bind_eq_some_iff.1 hq
  rw [hb, Option.bind_some]
  cases b with
  | true =>
    obtain ⟨rfl, rfl⟩ := Prod.mk.inj (Option.some.inj hq)
    exact ⟨s, rfl, S, h⟩
  | false =>
    simp only [Bool.false_eq_true, if_false] at hq ⊢
    obtain ⟨t, ht, hq⟩ := Option.map_eq_some_iff.1 hq
    obtain ⟨rfl, rfl⟩ := Prod.mk.inj hq
    have hstart : LoopSim ⟨s, phys &&& pageAlignMask, .noErr⟩
        ⟨s.paging, phys &&& pageAlignMask, .noErr⟩ := ⟨⟨S, h⟩, rfl, rfl⟩
    obtain ⟨s', hs', hS', -, herr⟩ := sweep_sim (PageMemory.mapPage readOnly cacheEnabled hardware)
      (Paging.mapPage readOnly cacheEnabled hardware) LoopSim
      (Paging.page_lt (hbase.trans_lt (by decide)))
      (fun k hk s t r hR hr => hR.mapPage (by omega) hr) _ n 0 _ _ _ t (Nat.zero_add n) h1 hstart ht
    have hs'' : sweep kernelPageSize (PageMemory.mapPage readOnly cacheEnabled hardware) _
        ⟨s, phys &&& pageAlignMask, .noErr⟩ (a * 4096) _ = some s' := hs'
    rw [hs'', Option.map_some, herr]
    exact ⟨s'.tables, rfl, hS'⟩

end PageMemory

end RTLKIM

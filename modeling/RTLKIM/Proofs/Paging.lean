import Mathlib.Tactic.Linarith
import RTLKIM.Paging
import RTLKIM.Proofs.MemAllocFree
import RTLKIM.Lib.Packed

/-!
# Mapping a region and unmapping it

`Layout p₀ e T W D p` describes `p` against the state `p₀` a region was mapped in: the pages `W` are
mapped, by the words `e`, and the directory entries `D` have new tables, at the words `T`; all the
rest is as in `p₀`. `kernel_mmap` adds to `W` and `D` page by page and `kernel_munmap` takes from
them, so after both nothing is left of either. The frames of the pool go along: those of `p₀` less
the frames of the region and of the new tables.
-/

namespace RTLKIM

/-! ## Pages and words -/

theorem pgdirEntry_page (j : ℕ) : pgdirEntry (j * kernelPageSize) = j / 1024 := (page_shift j).1

theorem pgtableEntry_page (j : ℕ) : pgtableEntry (j * kernelPageSize) = j % 1024 := (page_shift j).2

/-- The entries of an entry's page. -/
theorem entry_page {d i : ℕ} (hi : i < kernelPgdirSize) :
    (d * 1024 + i) / 1024 = d ∧ (d * 1024 + i) % 1024 = i := by
  simp only [kernelPgdirSize] at hi
  omega

theorem Ico_one (f : ℕ) : Set.Ico f (f + 1) = {f} := by
  ext x
  simp only [Set.mem_Ico, Set.mem_singleton_iff]
  omega

/-- A present entry that is not mapped hardware, for the frame `f`. -/
structure HoldsFrame (w f : ℕ) : Prop where
  present : w &&& pageFlagPresent ≠ 0
  memory : w &&& pageFlagHardware = 0
  frame : w &&& pgEntryMask = f * kernelPageSize

theorem holdsFrame_or {f k : ℕ} (hf : f < Pool.frameCount) (hk : k < 4096)
    (hp : k &&& pageFlagPresent ≠ 0) (hh : k &&& pageFlagHardware = 0) :
    HoldsFrame (f * kernelPageSize ||| k) f := by
  refine ⟨?_, ?_, packed_and_mask hf hk⟩
  · rwa [packed_and_flags (by decide)]
  · rwa [packed_and_flags (by decide)]

/-- The word of a table that was made. -/
theorem holdsFrame_table {f : ℕ} (hf : f < Pool.frameCount) :
    HoldsFrame (f * kernelPageSize ||| 3) f :=
  holdsFrame_or hf (by decide) (by decide) (by decide)

theorem Paging.pageEntry_eq (f : ℕ) (readOnly cacheEnabled hardware : Bool) :
    pageEntry (f * kernelPageSize) readOnly cacheEnabled hardware
      = f * kernelPageSize ||| pageEntry 0 readOnly cacheEnabled hardware := by
  unfold pageEntry
  simp only [Nat.or_assoc, Nat.zero_or]

theorem Paging.pageEntry_zero_lt (readOnly cacheEnabled hardware : Bool) :
    pageEntry 0 readOnly cacheEnabled hardware < 4096 := by
  cases readOnly <;> cases cacheEnabled <;> cases hardware <;> decide

theorem holdsFrame_pageEntry {f : ℕ} (hf : f < Pool.frameCount) (readOnly : Bool) :
    HoldsFrame (Paging.pageEntry (f * kernelPageSize) readOnly true false) f := by
  rw [Paging.pageEntry_eq]
  refine holdsFrame_or hf (Paging.pageEntry_zero_lt _ _ _) ?_ ?_
  · cases readOnly <;> decide
  · cases readOnly <;> decide

namespace Paging

variable {p₀ p : Paging} {e T : ℕ → ℕ} {W D : Set ℕ} {d i j w : ℕ}

@[simp] theorem setPool_pgdir (P : Pool) : (p.setPool P).pgdir = p.pgdir := rfl

@[simp] theorem setPool_pgtable (P : Pool) : (p.setPool P).pgtable = p.pgtable := rfl

@[simp] theorem setDir_pgtable : (p.setDir d w).pgtable = p.pgtable := rfl

@[simp] theorem setEntry_pgdir : (p.setEntry d i w).pgdir = p.pgdir := rfl

@[simp] theorem zeroTable_pgdir : (p.zeroTable d).pgdir = p.pgdir := rfl

@[simp] theorem setDir_self : (p.setDir d w).pgdir d = w := Function.update_self _ _ _

theorem setDir_of_ne {d' : ℕ} (h : d' ≠ d) : (p.setDir d w).pgdir d' = p.pgdir d' :=
  Function.update_of_ne h _ _

theorem setTable_of_ne {t : ℕ → ℕ} {d' : ℕ} (h : d' ≠ d) :
    (p.setTable d t).pgtable d' = p.pgtable d' := Function.update_of_ne h _ _

@[simp] theorem setEntry_self : (p.setEntry d i w).pgtable d i = w := by
  simp [setEntry, setTable]

theorem setEntry_of_ne {d' i' : ℕ} (h : d' = d → i' ≠ i) :
    (p.setEntry d i w).pgtable d' i' = p.pgtable d' i' := by
  by_cases hd : d' = d
  · subst hd
    simp [setEntry, setTable, Function.update_of_ne (h rfl)]
  · rw [setEntry, setTable_of_ne hd]

theorem zeroTable_self (hi : i < 1024) : (p.zeroTable d).pgtable d i = 0 := by
  simp [zeroTable, setTable, hi]

/-! ## Layouts -/

structure Layout (p₀ : Paging) (e T : ℕ → ℕ) (W D : Set ℕ) (p : Paging) : Prop where
  dir_new : ∀ d ∈ D, p.pgdir d = T d
  dir_old : ∀ d ∉ D, p.pgdir d = p₀.pgdir d
  page : ∀ j ∈ W, p.pgtable (j / 1024) (j % 1024) = e j
  table_new : ∀ d ∈ D, ∀ i < 1024, d * 1024 + i ∉ W → p.pgtable d i = 0
  table_old : ∀ d ∉ D, p₀.Present d → ∀ i < 1024, d * 1024 + i ∉ W →
    p.pgtable d i = p₀.pgtable d i

namespace Layout

theorem start (P : Pool) : Layout p₀ e T ∅ ∅ (p₀.setPool P) :=
  ⟨by simp, fun _ _ => rfl, by simp, by simp, fun _ _ _ _ _ _ => rfl⟩

/-- Nothing mapped and no new table. -/
theorem restored (h : Layout p₀ e T ∅ ∅ p) : (∀ d, p.pgdir d = p₀.pgdir d)
    ∧ ∀ d, p₀.Present d → ∀ i < kernelPgdirSize, p.pgtable d i = p₀.pgtable d i :=
  ⟨fun d => h.dir_old d (by simp), fun d hd i hi => h.table_old d (by simp) hd i hi (by simp)⟩

variable (h : Layout p₀ e T W D p)

include h

theorem setPool (P : Pool) : Layout p₀ e T W D (p.setPool P) :=
  ⟨h.dir_new, h.dir_old, h.page, h.table_new, h.table_old⟩

theorem present_new (hd : d ∈ D) {f : ℕ} (hT : HoldsFrame (T d) f) : p.Present d := by
  unfold Present
  rw [h.dir_new d hd]
  exact hT.present

theorem present_old (hd : d ∉ D) : p.Present d ↔ p₀.Present d := by
  unfold Present
  rw [h.dir_old d hd]

/-- A new table, where no page is mapped. -/
theorem addTable (hd : d ∉ D) (hW : ∀ j ∈ W, j / 1024 ≠ d) (w : ℕ) :
    Layout p₀ e (Function.update T d w) W (insert d D) ((p.setDir d w).zeroTable d) := by
  refine ⟨fun x hx => ?_, fun x hx => ?_, fun j hj => ?_, fun x hx i hi hj => ?_,
    fun x hx hp i hi hj => ?_⟩
  · by_cases hxd : x = d
    · subst hxd
      simp
    · rw [zeroTable_pgdir, setDir_of_ne hxd, Function.update_of_ne hxd]
      exact h.dir_new x (hx.resolve_left hxd)
  · rw [Set.mem_insert_iff, not_or] at hx
    rw [zeroTable_pgdir, setDir_of_ne hx.1]
    exact h.dir_old x hx.2
  · rw [zeroTable, setTable_of_ne (hW j hj)]
    exact h.page j hj
  · by_cases hxd : x = d
    · subst hxd
      exact zeroTable_self hi
    · rw [zeroTable, setTable_of_ne hxd]
      exact h.table_new x (hx.resolve_left hxd) i hi hj
  · rw [Set.mem_insert_iff, not_or] at hx
    rw [zeroTable, setTable_of_ne hx.1]
    exact h.table_old x hx.2 hp i hi hj

/-- A page mapped. -/
theorem addPage (j : ℕ) :
    Layout p₀ e T (insert j W) D (p.setEntry (j / 1024) (j % 1024) (e j)) := by
  have hne : ∀ d i, i < 1024 → d * 1024 + i ∉ insert j W →
      (p.setEntry (j / 1024) (j % 1024) (e j)).pgtable d i = p.pgtable d i := by
    intro d i hi hj
    refine setEntry_of_ne fun hd hij => hj (.inl ?_)
    rw [hd, hij]
    omega
  have hmem : ∀ {x}, x ∉ insert j W → x ∉ W := fun hx hW => hx (.inr hW)
  refine ⟨h.dir_new, h.dir_old, fun x hx => ?_, fun d hd i hi hj => ?_, fun d hd hp i hi hj => ?_⟩
  · by_cases hxj : x = j
    · subst hxj
      exact setEntry_self
    · rw [setEntry_of_ne (by omega)]
      exact h.page x (hx.resolve_left hxj)
  · rw [hne d i hi hj]
    exact h.table_new d hd i hi (hmem hj)
  · rw [hne d i hi hj]
    exact h.table_old d hd hp i hi (hmem hj)

/-- A page unmapped that was not mapped before. -/
theorem dropPage (j : ℕ) (h0 : p₀.Present (j / 1024) → p₀.pgtable (j / 1024) (j % 1024) = 0) :
    Layout p₀ e T (W \ {j}) D (p.setEntry (j / 1024) (j % 1024) 0) := by
  refine ⟨h.dir_new, h.dir_old, fun x hx => ?_, fun d hd i hi hj => ?_, fun d hd hp i hi hj => ?_⟩
  · have hxj : x ≠ j := hx.2
    rw [setEntry_of_ne (by omega)]
    exact h.page x hx.1
  · by_cases hji : d * 1024 + i = j
    · subst hji
      rw [(entry_page hi).1, (entry_page hi).2]
      exact setEntry_self
    · rw [setEntry_of_ne (by omega)]
      exact h.table_new d hd i hi fun hW => hj ⟨hW, hji⟩
  · by_cases hji : d * 1024 + i = j
    · subst hji
      rw [(entry_page hi).1, (entry_page hi).2] at h0 ⊢
      exact setEntry_self.trans (h0 hp).symm
    · rw [setEntry_of_ne (by omega)]
      exact h.table_old d hd hp i hi fun hW => hj ⟨hW, hji⟩

/-- A new table given back. -/
theorem dropTable (hd : ¬ p₀.Present d) (h0 : p₀.pgdir d = 0) :
    Layout p₀ e T W (D \ {d}) (p.setDir d 0) := by
  refine ⟨fun x hx => ?_, fun x hx => ?_, h.page, fun x hx => h.table_new x hx.1,
    fun x hx hp => h.table_old x (fun hD => hx ⟨hD, fun hxd => hd (hxd ▸ hp)⟩) hp⟩
  · rw [setDir_of_ne hx.2]
    exact h.dir_new x hx.1
  · by_cases hxd : x = d
    · subst hxd
      rw [setDir_self, h0]
    · rw [setDir_of_ne hxd]
      exact h.dir_old x fun hD => hx ⟨hD, hxd⟩

end Layout

/-! ## Regions -/

/-- The entries of the pages `W` that have no table in `p₀`. -/
def newTables (p₀ : Paging) (W : Set ℕ) : Set ℕ := {d | ¬ p₀.Present d ∧ ∃ j ∈ W, j / 1024 = d}

theorem newTables_empty : newTables p₀ ∅ = ∅ := by
  ext d
  simp [newTables]

theorem newTables_insert_of_present (h : p₀.Present (j / 1024)) :
    newTables p₀ (insert j W) = newTables p₀ W := by
  ext d
  simp only [newTables, Set.mem_ofPred_eq, Set.exists_mem_insert]
  refine and_congr_right fun hd => or_iff_right ?_
  rintro rfl
  exact hd h

theorem newTables_insert_of_absent (h : ¬ p₀.Present (j / 1024)) :
    newTables p₀ (insert j W) = insert (j / 1024) (newTables p₀ W) := by
  ext d
  simp only [newTables, Set.mem_insert_iff, Set.mem_ofPred_eq]
  constructor
  · rintro ⟨hd, x, rfl | hx, rfl⟩
    · exact .inl rfl
    · exact .inr ⟨hd, x, hx, rfl⟩
  · rintro (rfl | ⟨hd, x, hx, rfl⟩)
    · exact ⟨h, j, .inl rfl, rfl⟩
    · exact ⟨hd, x, .inr hx, rfl⟩

/-- The new tables `D` are in frames of their own among `S`. -/
structure TableFrames (S : Set ℕ) (t : ℕ → ℕ) (D : Set ℕ) : Prop where
  inj : Set.InjOn t D
  mem : ∀ d ∈ D, t d ∈ S
  bound : ∀ d ∈ D, t d < Pool.frameCount

/-- The word for a table in the frame `t d`. -/
def tableWord (t : ℕ → ℕ) (d : ℕ) : ℕ := t d * kernelPageSize ||| 3

theorem tableWord_update (t : ℕ → ℕ) (d f : ℕ) :
    tableWord (Function.update t d f)
      = Function.update (tableWord t) d (f * kernelPageSize ||| 3) := by
  funext x
  unfold tableWord
  by_cases hx : x = d
  · subst hx
    rw [Function.update_self, Function.update_self]
  · rw [Function.update_of_ne hx, Function.update_of_ne hx]

namespace TableFrames

variable {S : Set ℕ} {t : ℕ → ℕ} {f : ℕ} (h : TableFrames S t D)

include h

theorem holdsFrame (hd : d ∈ D) : HoldsFrame (tableWord t d) (t d) :=
  holdsFrame_table (h.bound d hd)

/-- One more table, in a frame that is left. -/
theorem insert (hd : d ∉ D) (hf : f ∈ S \ t '' D) (hfb : f < Pool.frameCount) :
    TableFrames S (Function.update t d f) (insert d D)
      ∧ S \ (Function.update t d f) '' (insert d D) = (S \ t '' D) \ {f} := by
  have hold : ∀ x ∈ D, Function.update t d f x = t x := by
    intro x hx
    have hxd : x ≠ d := fun e => hd (e ▸ hx)
    exact Function.update_of_ne hxd _ _
  have himage : (Function.update t d f) '' (Insert.insert d D) = Insert.insert f (t '' D) := by
    rw [Set.image_insert_eq, Function.update_self, Set.image_congr hold]
  refine ⟨⟨?_, ?_, ?_⟩, ?_⟩
  · refine (Set.injOn_insert hd).2 ⟨fun x hx y hy hxy => h.inj hx hy ?_, ?_⟩
    · rwa [hold x hx, hold y hy] at hxy
    · rw [Function.update_self, Set.image_congr hold]
      exact hf.2
  · rintro x (rfl | hx)
    · rw [Function.update_self]
      exact hf.1
    · rw [hold x hx]
      exact h.mem x hx
  · rintro x (rfl | hx)
    · rwa [Function.update_self]
    · rw [hold x hx]
      exact h.bound x hx
  · rw [himage, ← Set.union_singleton, Set.sdiff_sdiff]

end TableFrames

/-! ## Mapping -/

section Map

variable {S : Set ℕ} {t : ℕ → ℕ}

/-- The pages `W` are mapped, there are tables for the pages `W'`, in frames of `S`, and the other
frames of `S` are in the pool. -/
structure MapInv (Holds : Pool → Set ℕ → Prop) (p₀ : Paging) (S : Set ℕ) (e t : ℕ → ℕ)
    (W W' : Set ℕ) (p : Paging) : Prop where
  layout : Layout p₀ e (tableWord t) W (newTables p₀ W') p
  tables : TableFrames S t (newTables p₀ W')
  pool : Holds p.pool (S \ t '' newTables p₀ W')

theorem MapInv.chained (h : MapInv Pool.Linked p₀ S e t W W p) :
    MapInv Pool.Chained p₀ S e t W W p := ⟨h.layout, h.tables, h.pool.chained⟩

/-- No frame is left for the table of the page `j`, which is missing. -/
structure NoFrame (p₀ : Paging) (S : Set ℕ) (t : ℕ → ℕ) (W : Set ℕ) (j : ℕ) : Prop where
  absent : ¬ p₀.Present (j / 1024)
  needed : j / 1024 ∉ newTables p₀ W
  left : S \ t '' newTables p₀ W = ∅

/-- The table of the page `j`, there or new, or no frame for it and nothing changed. -/
theorem MapInv.allocTable (hS : ∃ g < Pool.frameCount, g ∉ S)
    (h : MapInv Pool.Linked p₀ S e t W W p) (j : ℕ) :
    ∃ q err, p.allocTable (j / 1024) = some (q, err)
      ∧ (err = .noErr → ∃ t, MapInv Pool.Linked p₀ S e t W (insert j W) q)
      ∧ (err ≠ .noErr → q = p ∧ NoFrame p₀ S t W j) := by
  obtain ⟨g, hg, hgS⟩ := hS
  unfold Paging.allocTable
  by_cases hpres : p.Present (j / 1024)
  · rw [if_pos hpres]
    -- the directory entry was there, or an earlier page made it
    have hnew : newTables p₀ (insert j W) = newTables p₀ W := by
      by_cases hp : p₀.Present (j / 1024)
      · exact newTables_insert_of_present hp
      · have hmem : j / 1024 ∈ newTables p₀ W := by
          by_contra hnot
          exact hp ((h.layout.present_old hnot).1 hpres)
        rw [newTables_insert_of_absent hp, Set.insert_eq_of_mem hmem]
    refine ⟨p, .noErr, rfl, fun _ => ⟨t, ?_, ?_, ?_⟩, fun hne => absurd rfl hne⟩
    · rw [hnew]
      exact h.layout
    · rw [hnew]
      exact h.tables
    · rw [hnew]
      exact h.pool
  · rw [if_neg hpres]
    have hgS' : g ∉ S \ t '' newTables p₀ W := fun hx => hgS hx.1
    have hdD : j / 1024 ∉ newTables p₀ W := fun hmem =>
      hpres (h.layout.present_new hmem (h.tables.holdsFrame hmem))
    have hp : ¬ p₀.Present (j / 1024) := fun hp => hpres ((h.layout.present_old hdD).2 hp)
    rcases h.pool.getBlock hg hgS' (by decide : 1 < Pool.frameCount) with
      ⟨hb, hsmall⟩ | ⟨P, f, hb, hfb, hfS, hP, -⟩
    · rw [hb]
      exact ⟨p, .noMoreFreeMem, rfl, by simp, fun _ => ⟨rfl, hp, hdD, h.pool.eq_empty hsmall⟩⟩
    · rw [hb]
      have hW : ∀ x ∈ W, x / 1024 ≠ j / 1024 := fun x hx hxd => hdD ⟨hp, x, hx, hxd⟩
      have hnew := newTables_insert_of_absent (W := W) hp
      obtain ⟨h1, h2⟩ := h.tables.insert hdD (hfS f le_rfl (by omega)) (by omega)
      refine ⟨_, .noErr, rfl, fun _ => ⟨Function.update t (j / 1024) f, ?_, ?_, ?_⟩,
        fun hne => absurd rfl hne⟩
      · rw [hnew, tableWord_update]
        have := (h.layout.setPool P).addTable hdD hW (f * kernelPageSize ||| 3)
        rwa [show f * kernelPageSize ||| pageFlagReadWrite ||| pageFlagPresent
          = f * kernelPageSize ||| 3 from Nat.or_assoc _ _ _]
      · rw [hnew]
        exact h1
      · rw [hnew, h2]
        rwa [Ico_one] at hP

/-- The loop of `kernel_mmap_internal` at the page `j`. -/
theorem MapInv.mapPage (hS : ∃ g < Pool.frameCount, g ∉ S) {readOnly cacheEnabled hardware : Bool}
    {s : MapState} (h : MapInv Pool.Linked p₀ S e t W W s.paging) (j : ℕ)
    (he : e j = pageEntry s.physAlign readOnly cacheEnabled hardware) :
    ∃ r, mapPage readOnly cacheEnabled hardware s (j * kernelPageSize) = some r
      ∧ if r.2 then r.1.err ≠ .noErr ∧ r.1.paging = s.paging ∧ NoFrame p₀ S t W j
        else r.1.err = .noErr ∧ r.1.physAlign = add32 s.physAlign kernelPageSize
          ∧ ∃ t, MapInv Pool.Linked p₀ S e t (insert j W) (insert j W) r.1.paging := by
  obtain ⟨q, err, hq, hinv, hstop⟩ := h.allocTable hS j
  unfold Paging.mapPage
  rw [pgdirEntry_page, pgtableEntry_page, hq, Option.map_some]
  by_cases herr : err = .noErr
  · subst herr
    obtain ⟨t, ht⟩ := hinv rfl
    refine ⟨_, rfl, rfl, rfl, t, ?_, ht.tables, ht.pool⟩
    rw [← he]
    exact ht.layout.addPage j
  · exact ⟨(⟨q, s.physAlign, err⟩, true), congrArg some (if_pos herr), herr, hstop herr⟩

end Map

/-! ## Unmapping -/

/-- The pages `W` are not mapped in `p₀`, and are to be mapped by the words `e` to the frames `fr`
of its frames `S₀`. -/
structure Region (p₀ : Paging) (S₀ : Set ℕ) (e fr : ℕ → ℕ) (W : Set ℕ) : Prop where
  used : p₀.TablesUsed
  zeroed : ∀ j ∈ W, (¬ p₀.Present (j / 1024) → p₀.pgdir (j / 1024) = 0)
    ∧ (p₀.Present (j / 1024) → p₀.pgtable (j / 1024) (j % 1024) = 0)
  missing : ∃ g < Pool.frameCount, g ∉ S₀
  below : ∀ j ∈ W, j / 1024 < kernelPgdirSize - 1
  unmapped : ∀ j ∈ W, p₀.Present (j / 1024) → ¬ p₀.Mapped (j / 1024) (j % 1024)
  mem : ∀ j ∈ W, fr j ∈ S₀
  bound : ∀ j ∈ W, fr j < Pool.frameCount
  inj : Set.InjOn fr W
  words : ∀ j ∈ W, HoldsFrame (e j) (fr j)

theorem Region.mono {S₀ W' : Set ℕ} {fr : ℕ → ℕ} (R : Region p₀ S₀ e fr W) (h : W' ⊆ W) :
    Region p₀ S₀ e fr W' :=
  { used := R.used
    zeroed := fun j hj => R.zeroed j (h hj)
    missing := R.missing
    below := fun j hj => R.below j (h hj)
    unmapped := fun j hj => R.unmapped j (h hj)
    mem := fun j hj => R.mem j (h hj)
    bound := fun j hj => R.bound j (h hj)
    inj := R.inj.mono h
    words := fun j hj => R.words j (h hj) }

section Unmap

variable {S₀ W' : Set ℕ} {fr t : ℕ → ℕ} {kmalloc : ℕ → Pool → ℕ}
  (hk : ∀ addr P, kmalloc addr P ≠ 0 ∧ kmalloc addr P ∉ P.alive)

include hk

/-- A frame that is not in the pool given back. -/
theorem freeKframes_frame {S : Set ℕ} {f : ℕ} (hg : ∃ g < Pool.frameCount, g ∉ insert f S)
    (hf : f < Pool.frameCount) (hfS : f ∉ S) (h : p.pool.Chained S) :
    ∃ P, freeKframes kmalloc p (f * kernelPageSize) 1 = some (p.setPool P)
      ∧ P.Chained (insert f S) := by
  obtain ⟨g, hg, hgS⟩ := hg
  rw [Set.mem_insert_iff, not_or] at hgS
  obtain ⟨h0, hfresh⟩ := hk (f * kernelPageSize) p.pool
  have hone : Set.Ico f (f + 1) = {f} := Ico_one f
  obtain ⟨P, h1, h2⟩ := h.addFree hg hgS.2 Nat.one_pos hf (by simpa [hone] using hfS)
    (by simpa [hone] using hgS.1) h0 hfresh
  refine ⟨P, ?_, ?_⟩
  · unfold freeKframes
    rw [mul32_of_lt (by decide), h1]
    rfl
  · rwa [hone, Set.union_singleton] at h2

/-- The page `j` given back and its entry cleared. -/
theorem MapInv.clearEntry (R : Region p₀ S₀ e fr (insert j W)) (hj : j ∉ W)
    (h : MapInv Pool.Chained p₀ (S₀ \ fr '' insert j W) e t (insert j W) (insert j W) p) :
    ∃ q, clearEntry kmalloc p (j / 1024) (j % 1024) = some q
      ∧ MapInv Pool.Chained p₀ (S₀ \ fr '' W) e t W (insert j W) q := by
  have hjm : j ∈ insert j W := Set.mem_insert _ _
  have hw := R.words j hjm
  have hpage : p.pgtable (j / 1024) (j % 1024) = e j := h.layout.page j hjm
  have hfrW : fr j ∉ fr '' W := by
    rintro ⟨x, hx, hxj⟩
    have := R.inj (Set.mem_insert_of_mem j hx) hjm hxj
    exact hj (this ▸ hx)
  have hfrt : fr j ∉ t '' newTables p₀ (insert j W) := by
    rintro ⟨d, hd, hdj⟩
    exact (h.tables.mem d hd).2 ⟨j, hjm, hdj.symm⟩
  -- the frames in the pool after
  have hset : insert (fr j) ((S₀ \ fr '' insert j W) \ t '' newTables p₀ (insert j W))
      = (S₀ \ fr '' W) \ t '' newTables p₀ (insert j W) := by
    ext x
    simp only [Set.image_insert_eq, Set.mem_insert_iff, Set.mem_sdiff, not_or]
    constructor
    · rintro (rfl | ⟨⟨h1, h2, h3⟩, h4⟩)
      · exact ⟨⟨R.mem j hjm, hfrW⟩, hfrt⟩
      · exact ⟨⟨h1, h3⟩, h4⟩
    · rintro ⟨⟨h1, h3⟩, h4⟩
      by_cases hx : x = fr j
      · exact .inl hx
      · exact .inr ⟨⟨h1, hx, h3⟩, h4⟩
  have hmiss : ∃ g < Pool.frameCount, g ∉ insert (fr j)
      ((S₀ \ fr '' insert j W) \ t '' newTables p₀ (insert j W)) := by
    obtain ⟨g, hg, hgS⟩ := R.missing
    rw [hset]
    exact ⟨g, hg, fun hx => hgS hx.1.1⟩
  obtain ⟨P, h1, h2⟩ := freeKframes_frame hk hmiss (R.bound j hjm)
    (fun hx => hx.1.2 ⟨j, hjm, rfl⟩) h.pool
  rw [hset] at h2
  refine ⟨(p.setPool P).setEntry (j / 1024) (j % 1024) 0, ?_, ?_, ?_, h2⟩
  · have hmap : p.Mapped (j / 1024) (j % 1024) := by
      unfold Mapped
      rw [hpage]
      exact hw.present
    unfold Paging.clearEntry
    rw [if_pos hmap, hpage, if_pos hw.memory, hw.frame, h1]
    rfl
  · have := (h.layout.setPool P).dropPage j (R.zeroed j hjm).2
    rwa [Set.insert_sdiff_self_of_notMem hj] at this
  · refine ⟨h.tables.inj, fun d hd => ?_, h.tables.bound⟩
    have := h.tables.mem d hd
    exact ⟨this.1, fun hx => this.2 (Set.image_mono (Set.subset_insert j W) hx)⟩

/-- The table of the page `j` given back if it was new and no other page is in it. -/
theorem MapInv.dropTable (R : Region p₀ S₀ e fr (insert j W))
    (h : MapInv Pool.Chained p₀ (S₀ \ fr '' W) e t W (insert j W) p) :
    ∃ q, dropTable kmalloc p (j / 1024) = some q
      ∧ MapInv Pool.Chained p₀ (S₀ \ fr '' W) e t W W q := by
  have hbelow := R.below j (Set.mem_insert _ _)
  -- a page left in the table keeps it
  have hkeep : (∃ i < kernelPgdirSize, p.Mapped (j / 1024) i) →
      newTables p₀ (insert j W) = newTables p₀ W → ∃ q, Paging.dropTable kmalloc p (j / 1024) = some q
        ∧ MapInv Pool.Chained p₀ (S₀ \ fr '' W) e t W W q := by
    rintro ⟨i, hi, hmap⟩ hnew
    refine ⟨p, if_neg fun hempty => hempty i hi hmap, ?_, ?_, ?_⟩
    · rw [← hnew]
      exact h.layout
    · rw [← hnew]
      exact h.tables
    · rw [← hnew]
      exact h.pool
  by_cases hp : p₀.Present (j / 1024)
  · refine hkeep ?_ (newTables_insert_of_present hp)
    have hused := R.used _ hbelow hp
    unfold TableEmpty at hused
    push Not at hused
    obtain ⟨i, hi, hmap⟩ := hused
    have hW : j / 1024 * 1024 + i ∉ W := by
      intro hx
      have := R.unmapped _ (Set.mem_insert_of_mem j hx)
      rw [(entry_page hi).1, (entry_page hi).2] at this
      exact this hp hmap
    refine ⟨i, hi, ?_⟩
    unfold Mapped
    rw [h.layout.table_old _ (fun hd => hd.1 hp) hp i hi hW]
    exact hmap
  have hins := newTables_insert_of_absent (W := W) hp
  by_cases hmem : j / 1024 ∈ newTables p₀ W
  · refine hkeep ?_ (by rw [hins, Set.insert_eq_of_mem hmem])
    obtain ⟨-, x, hx, hxj⟩ := hmem
    refine ⟨x % 1024, Nat.mod_lt _ (by decide), ?_⟩
    unfold Mapped
    rw [← hxj, h.layout.page x hx]
    exact (R.words x (Set.mem_insert_of_mem j hx)).present
  -- the last page of a new table
  have hd : j / 1024 ∈ newTables p₀ (insert j W) := by
    rw [hins]
    exact Set.mem_insert _ _
  have hempty : p.TableEmpty (j / 1024) := by
    intro i hi hmap
    refine hmap ?_
    rw [h.layout.table_new _ hd i hi fun hx => hmem ⟨hp, _, hx, (entry_page hi).1⟩]
    rfl
  have htd : t (j / 1024) ∉ t '' newTables p₀ W := by
    rintro ⟨x, hx, hxj⟩
    have hx' : x ∈ newTables p₀ (insert j W) := by
      rw [hins]
      exact Set.mem_insert_of_mem _ hx
    exact hmem (h.tables.inj hx' hd hxj ▸ hx)
  have hset : insert (t (j / 1024)) ((S₀ \ fr '' W) \ t '' newTables p₀ (insert j W))
      = (S₀ \ fr '' W) \ t '' newTables p₀ W := by
    ext x
    rw [hins]
    simp only [Set.image_insert_eq, Set.mem_insert_iff, Set.mem_sdiff, not_or]
    constructor
    · rintro (rfl | ⟨h1, -, h2⟩)
      · exact ⟨h.tables.mem _ hd, htd⟩
      · exact ⟨h1, h2⟩
    · rintro ⟨h1, h2⟩
      by_cases hx : x = t (j / 1024)
      · exact .inl hx
      · exact .inr ⟨h1, hx, h2⟩
  have hmiss : ∃ g < Pool.frameCount, g ∉ insert (t (j / 1024))
      ((S₀ \ fr '' W) \ t '' newTables p₀ (insert j W)) := by
    obtain ⟨g, hg, hgS⟩ := R.missing
    rw [hset]
    exact ⟨g, hg, fun hx => hgS hx.1.1⟩
  obtain ⟨P, h1, h2⟩ := freeKframes_frame hk hmiss (h.tables.bound _ hd)
    (fun hx => hx.2 ⟨_, hd, rfl⟩) h.pool
  rw [hset] at h2
  refine ⟨(p.setPool P).setDir (j / 1024) 0, ?_, ?_, ?_, h2⟩
  · unfold Paging.dropTable
    rw [if_pos hempty, h.layout.dir_new _ hd, (h.tables.holdsFrame hd).frame, h1]
    rfl
  · have := (h.layout.setPool P).dropTable hp ((R.zeroed j (Set.mem_insert j W)).1 hp)
    rwa [hins, Set.insert_sdiff_self_of_notMem hmem] at this
  · have hsub : newTables p₀ W ⊆ newTables p₀ (insert j W) := by
      rw [hins]
      exact Set.subset_insert _ _
    exact ⟨h.tables.inj.mono hsub, fun d hd => h.tables.mem d (hsub hd),
      fun d hd => h.tables.bound d (hsub hd)⟩

/-- The loop of `kernel_munmap` at the page `j`. -/
theorem MapInv.unmapPage (R : Region p₀ S₀ e fr (insert j W)) (hj : j ∉ W)
    (h : MapInv Pool.Chained p₀ (S₀ \ fr '' insert j W) e t (insert j W) (insert j W) p) :
    ∃ q, unmapPage kmalloc p (j * kernelPageSize) = some q
      ∧ MapInv Pool.Chained p₀ (S₀ \ fr '' W) e t W W q := by
  have hpres : p.Present (j / 1024) := by
    by_cases hd : j / 1024 ∈ newTables p₀ (insert j W)
    · exact h.layout.present_new hd (h.tables.holdsFrame hd)
    · rw [h.layout.present_old hd]
      by_contra hp
      exact hd ⟨hp, j, Set.mem_insert _ _, rfl⟩
  obtain ⟨q, h1, h2⟩ := h.clearEntry hk R hj
  obtain ⟨r, h3, h4⟩ := h2.dropTable hk R
  refine ⟨r, ?_, h4⟩
  unfold Paging.unmapPage
  rw [pgdirEntry_page, pgtableEntry_page, if_pos hpres, h1, Option.bind_some, h3]

end Unmap

/-! ## Whole calls -/

section Calls

variable {S₀ : Set ℕ} {a n virt size : ℕ}

/-- The pages of a region, as each of the calls rounds it: the pages from `a` on, `n` of them. -/
theorem exists_pages (h : virt + size ≤ pagingRecurPgTable) : ∃ a n,
    virt &&& pageAlignMask = a * kernelPageSize
      ∧ sub32 (endMap virt size) (a * kernelPageSize) = n * kernelPageSize
      ∧ add32 size (sub32 virt (a * kernelPageSize)) ≤ n * kernelPageSize
      ∧ n * kernelPageSize < add32 size (sub32 virt (a * kernelPageSize)) + kernelPageSize
      ∧ a + n ≤ 1023 * 1024 := by
  simp only [pagingRecurPgTable] at h
  have hstop : add32 virt size = virt + size := add32_of_lt (by omega)
  have hend : endMap virt size = (virt + size + 4095) / 4096 * 4096 := by
    unfold endMap
    simp only [hstop, kernelPageSize, pageAlignMask]
    split_ifs with hr
    · rw [and_mask (by omega), add32_of_lt (by omega)]
      omega
    · omega
  have hsub : sub32 virt (virt / 4096 * 4096) = virt % 4096 := by
    rw [sub32_of_le (by omega) (by omega)]
    omega
  refine ⟨virt / 4096, (virt + size + 4095) / 4096 - virt / 4096, and_mask (by omega), ?_⟩
  simp only [hend, kernelPageSize, hsub]
  rw [sub32_of_le (by omega) (by omega), add32_of_lt (by omega)]
  omega

theorem Ico_succ_right (k : ℕ) : Set.Ico a (a + (k + 1)) = insert (a + k) (Set.Ico a (a + k)) := by
  ext x
  simp only [Set.mem_Ico, Set.mem_insert_iff]
  omega

theorem Ico_succ_left {k : ℕ} (hk : k < n) :
    Set.Ico (a + k) (a + n) = insert (a + k) (Set.Ico (a + (k + 1)) (a + n)) := by
  ext x
  simp only [Set.mem_Ico, Set.mem_insert_iff]
  omega

theorem page_lt {j : ℕ} (h : j < Pool.frameCount) : j * 4096 < 2 ^ 32 := by
  simp only [Pool.frameCount] at h
  omega

/-- None of the pages from `a` on, `n` of them, is mapped. -/
def Unmapped (p : Paging) (a n : ℕ) : Prop :=
  ∀ j ∈ Set.Ico a (a + n), p.Present (j / 1024) → ¬ p.Mapped (j / 1024) (j % 1024)

/-- `is_mapped` returns, and says whether a page is mapped. -/
theorem isMapped_spec {toCheck : ℕ} (hbase : a + n < Pool.frameCount)
    (h1 : toCheck ≤ n * 4096) (h2 : n * 4096 < toCheck + 4096) :
    ∃ b, p.isMapped (a * 4096) toCheck = some b ∧ (b = false ↔ p.Unmapped a n) := by
  have hstart : a * 4096 < 2 ^ 32 := page_lt ((Nat.le_add_right a n).trans_lt hbase)
  have hcheck : toCheck + 0 < 2 ^ 32 :=
    h1.trans_lt (page_lt ((Nat.le_add_left n a).trans_lt hbase))
  have hmask : a * 4096 &&& pageAlignMask = a * 4096 := by
    rw [pageAlignMask, and_mask hstart, Nat.mul_div_cancel _ (by decide)]
  have hself : sub32 (a * 4096) (a * 4096) = 0 := by
    rw [sub32_of_le le_rfl hstart, Nat.sub_self]
  have hstep : ∀ k < n, ∀ b, (b = false ∧ p.Unmapped a k) → ∃ r,
      p.checkPage b ((a + k) * 4096) = some r
        ∧ if r.2 then r.1 = true ∧ ¬ p.Unmapped a n else r.1 = false ∧ p.Unmapped a (k + 1) := by
    intro k hk b hb
    unfold checkPage
    rw [pgdirEntry_page, pgtableEntry_page]
    split_ifs with hmap
    · exact ⟨_, rfl, rfl, fun hun => hun (a + k) ⟨by omega, by omega⟩ hmap.1 hmap.2⟩
    · refine ⟨_, rfl, rfl, ?_⟩
      unfold Unmapped
      rw [Ico_succ_right]
      rintro j (rfl | hj) hp
      · exact fun hm => hmap ⟨hp, hm⟩
      · exact hb.2 j hj hp
  obtain ⟨b, hb, hinv⟩ := sweep_pages p.checkPage (fun k b => b = false ∧ p.Unmapped a k)
    (fun b => b = true ∧ ¬ p.Unmapped a n) (by decide) (page_lt hbase) hstep h1 h2
    ⟨rfl, by simp [Unmapped]⟩
  refine ⟨b, ?_, ?_⟩
  · unfold isMapped
    simp only [hmask, hself, add32_of_lt hcheck]
    exact hb
  · rcases hinv with ⟨rfl, h⟩ | ⟨rfl, h⟩
    · simp [h]
    · simp [h]

/-- The frame of the page `j`. -/
def frameOf (a F j : ℕ) : ℕ := F + (j - a)

/-- The word of the page `j`. -/
def wordOf (a F : ℕ) (readOnly cacheEnabled hardware : Bool) (j : ℕ) : ℕ :=
  pageEntry (frameOf a F j * kernelPageSize) readOnly cacheEnabled hardware

theorem frameOf_image (a F n : ℕ) : frameOf a F '' Set.Ico a (a + n) = Set.Ico F (F + n) := by
  ext x
  simp only [Set.mem_image, Set.mem_Ico, frameOf]
  constructor
  · rintro ⟨j, hj, rfl⟩
    omega
  · intro hx
    exact ⟨a + (x - F), by omega, by omega⟩

section Loop

variable {S : Set ℕ} {F k : ℕ} {readOnly cacheEnabled hardware : Bool} {s : MapState}

/-- The loop of `kernel_mmap_internal` has mapped `k` pages. -/
structure MapLoop (p₀ : Paging) (S : Set ℕ) (a F n : ℕ) (readOnly cacheEnabled hardware : Bool)
    (k : ℕ) (s : MapState) : Prop where
  err : s.err = .noErr
  physAlign : k < n → s.physAlign = (F + k) * 4096
  inv : ∃ t, MapInv Pool.Linked p₀ S (wordOf a F readOnly cacheEnabled hardware) t
    (Set.Ico a (a + k)) (Set.Ico a (a + k)) s.paging

/-- It has stopped for want of a frame. -/
def MapStop (p₀ : Paging) (S : Set ℕ) (a F n : ℕ) (readOnly cacheEnabled hardware : Bool)
    (p : Paging) : Prop :=
  ∃ k < n, ∃ t, MapInv Pool.Linked p₀ S (wordOf a F readOnly cacheEnabled hardware) t
    (Set.Ico a (a + k)) (Set.Ico a (a + k)) p ∧ NoFrame p₀ S t (Set.Ico a (a + k)) (a + k)

theorem MapLoop.step (hS : ∃ g < Pool.frameCount, g ∉ S) (hF : F + n ≤ Pool.frameCount) (hk : k < n)
    (h : MapLoop p₀ S a F n readOnly cacheEnabled hardware k s) :
    ∃ r, mapPage readOnly cacheEnabled hardware s ((a + k) * 4096) = some r
      ∧ if r.2 then r.1.err ≠ .noErr
            ∧ MapStop p₀ S a F n readOnly cacheEnabled hardware r.1.paging
        else MapLoop p₀ S a F n readOnly cacheEnabled hardware (k + 1) r.1 := by
  obtain ⟨t, ht⟩ := h.inv
  have hphys := h.physAlign hk
  have hword : wordOf a F readOnly cacheEnabled hardware (a + k)
      = pageEntry s.physAlign readOnly cacheEnabled hardware := by
    rw [hphys]
    unfold wordOf frameOf
    rw [Nat.add_sub_cancel_left]
  obtain ⟨r, hr, hinv⟩ := ht.mapPage hS (a + k) hword
  refine ⟨r, hr, ?_⟩
  split_ifs at hinv ⊢
  · obtain ⟨herr, hsame, hno⟩ := hinv
    refine ⟨herr, k, hk, t, ?_, hno⟩
    rw [hsame]
    exact ht
  · obtain ⟨herr, hp, hmap⟩ := hinv
    refine ⟨herr, fun hk' => ?_, ?_⟩
    · have hlt : (F + k) * 4096 + 4096 < 2 ^ 32 := by
        simp only [Pool.frameCount] at hF
        omega
      rw [hp, hphys, add32_of_lt hlt]
      omega
    · rw [Ico_succ_right]
      exact hmap

/-- No page mapped yet, and no table made. -/
theorem MapInv.start {e t : ℕ → ℕ} {P : Pool} (hP : P.Linked S) :
    MapInv Pool.Linked p₀ S e t (Set.Ico a (a + 0)) (Set.Ico a (a + 0)) (p₀.setPool P) := by
  rw [show Set.Ico a (a + 0) = ∅ from Set.Ico_self a]
  refine ⟨?_, ?_, ?_⟩
  · rw [newTables_empty]
    exact Layout.start P
  · rw [newTables_empty]
    exact ⟨by simp, by simp, by simp⟩
  · rw [newTables_empty, Set.image_empty, Set.sdiff_empty]
    exact hP

variable (p₀ readOnly cacheEnabled hardware) in
/-- `kernel_mmap_internal` of frames out of the pool: a page is mapped already, all the pages are
mapped, or a frame is wanting for a table. -/
theorem kernelMmapInternal_spec {toMap phys : ℕ} {P : Pool}
    (hS : ∃ g < Pool.frameCount, g ∉ S) (hP : P.Linked S) (hF : F + n ≤ Pool.frameCount)
    (hbase : a + n < Pool.frameCount) (hvirt : virt &&& pageAlignMask = a * 4096)
    (hphys : 0 < n → phys &&& pageAlignMask = F * 4096)
    (htoMap : add32 size (sub32 virt (a * 4096)) = toMap)
    (h1 : toMap ≤ n * 4096) (h2 : n * 4096 < toMap + 4096) :
    ∃ q err, (p₀.setPool P).kernelMmapInternal virt phys size readOnly cacheEnabled hardware
        = some (q, err)
      ∧ ((err = .mappingAlreadyExists ∧ q = p₀.setPool P ∧ ¬ p₀.Unmapped a n)
        ∨ (p₀.Unmapped a n ∧ err = .pool .noErr
          ∧ ∃ t, MapInv Pool.Linked p₀ S (wordOf a F readOnly cacheEnabled hardware) t
            (Set.Ico a (a + n)) (Set.Ico a (a + n)) q)
        ∨ (p₀.Unmapped a n ∧ (∃ e, err = .pool e ∧ e ≠ .noErr)
          ∧ MapStop p₀ S a F n readOnly cacheEnabled hardware q)) := by
  unfold kernelMmapInternal
  simp only [hvirt, htoMap]
  obtain ⟨b, hb, hun⟩ := isMapped_spec (p := p₀.setPool P) hbase h1 h2
  have hun' : b = false ↔ p₀.Unmapped a n := hun
  rw [hb, Option.bind_some]
  cases b with
  | true => exact ⟨_, _, rfl, .inl ⟨rfl, rfl, fun h => by simpa using hun'.2 h⟩⟩
  | false =>
    have hstart : MapLoop p₀ S a F n readOnly cacheEnabled hardware 0
        ⟨p₀.setPool P, phys &&& pageAlignMask, .noErr⟩ :=
      ⟨rfl, fun hn => hphys hn, fun _ => 0, MapInv.start hP⟩
    obtain ⟨s, hs, hinv⟩ := sweep_pages (mapPage readOnly cacheEnabled hardware)
      (MapLoop p₀ S a F n readOnly cacheEnabled hardware)
      (fun s => s.err ≠ .noErr ∧ MapStop p₀ S a F n readOnly cacheEnabled hardware s.paging)
      (by decide) (page_lt hbase) (fun k hk s h => h.step hS hF hk) h1 h2 hstart
    simp only [Bool.false_eq_true, if_false]
    rw [hs, Option.map_some]
    refine ⟨_, _, rfl, ?_⟩
    rcases hinv with hinv | ⟨herr, hstop⟩
    · exact .inr (.inl ⟨hun'.1 rfl, by rw [hinv.err], hinv.inv⟩)
    · exact .inr (.inr ⟨hun'.1 rfl, ⟨_, rfl, herr⟩, hstop⟩)

end Loop

/-- What the entries of a region hold, by its pages. -/
theorem Zeroed.page {j : ℕ} (hzero : p₀.Zeroed virt size) (hvirt : virt &&& pageAlignMask = a * 4096)
    (hrange : virt + size ≤ pagingRecurPgTable)
    (h2 : n * 4096 < add32 size (sub32 virt (a * 4096)) + 4096) (hj : j ∈ Set.Ico a (a + n)) :
    (¬ p₀.Present (j / 1024) → p₀.pgdir (j / 1024) = 0)
      ∧ (p₀.Present (j / 1024) → ¬ p₀.Mapped (j / 1024) (j % 1024) →
        p₀.pgtable (j / 1024) (j % 1024) = 0) := by
  simp only [pagingRecurPgTable] at hrange
  have hlt : virt < 0x100000000 := by
    clear h2
    omega
  have hdiv : virt / 4096 * 4096 = a * 4096 := (and_mask hlt).symm.trans hvirt
  have hstart : a * 4096 ≤ virt := hdiv ▸ Nat.div_mul_le_self virt 4096
  have hword : size + (virt - a * 4096) < 2 ^ 32 := by
    clear h2
    omega
  rw [sub32_of_le hstart hlt, add32_of_lt hword] at h2
  obtain ⟨hj1, hj2⟩ := Set.mem_Ico.1 hj
  have hfirst : virt &&& pageAlignMask ≤ j * 4096 := by
    rw [hvirt]
    exact Nat.mul_le_mul_right _ hj1
  have hlast : j * 4096 < virt + size := by
    have hnext : (j + 1) * 4096 ≤ (a + n) * 4096 := Nat.mul_le_mul_right _ hj2
    linarith [Nat.sub_add_cancel hstart]
  have hpage := hzero (j * 4096) hfirst hlast
  rwa [pgdirEntry_page, pgtableEntry_page] at hpage

/-- `kernel_mmap` when it succeeds: a region of pages of `p₀` that were not mapped is mapped. -/
theorem kernelMmap_spec {kmalloc : ℕ → Pool → ℕ} {readOnly : Bool} {q : Paging}
    (hS : ∃ g < Pool.frameCount, g ∉ S₀) (hP : p₀.pool.Linked S₀)
    (hused : p₀.TablesUsed) (hzero : p₀.Zeroed virt size) (hrange : virt + size ≤ pagingRecurPgTable)
    (hbase : a + n ≤ 1023 * 1024) (hvirt : virt &&& pageAlignMask = a * 4096)
    (hend : sub32 (endMap virt size) (a * 4096) = n * 4096)
    (h1 : add32 size (sub32 virt (a * 4096)) ≤ n * 4096)
    (h2 : n * 4096 < add32 size (sub32 virt (a * 4096)) + 4096)
    (h : kernelMmap kmalloc p₀ virt size readOnly = some (q, .pool .noErr)) :
    ∃ F t, Region p₀ S₀ (wordOf a F readOnly true false) (frameOf a F) (Set.Ico a (a + n))
      ∧ MapInv Pool.Linked p₀ (S₀ \ frameOf a F '' Set.Ico a (a + n))
        (wordOf a F readOnly true false) t (Set.Ico a (a + n)) (Set.Ico a (a + n)) q := by
  obtain ⟨g, hg, hgS⟩ := hS
  unfold kernelMmap at h
  simp only [hvirt, hend] at h
  rw [Nat.mul_div_cancel _ (by decide)] at h
  have hn : n < Pool.frameCount := by
    simp only [Pool.frameCount]
    clear h2
    omega
  rcases hP.getBlock hg hgS hn with ⟨hb, -⟩ | ⟨P, F, hb, hF, hmem, hP', -⟩
  · rw [hb] at h
    simp at h
  · rw [hb, Option.bind_some] at h
    simp only [ne_eq, not_true_eq_false, if_false] at h
    obtain ⟨⟨q', err⟩, hq, h⟩ := Option.bind_eq_some_iff.1 h
    -- an error of the mapping is returned
    have herr : err = .pool .noErr := by
      by_contra herr
      rw [if_pos herr] at h
      obtain ⟨q'', -, h⟩ := Option.map_eq_some_iff.1 h
      exact herr (Prod.mk.inj h).2
    rw [if_neg (not_not.2 herr)] at h
    obtain ⟨rfl, -⟩ := Prod.mk.inj (Option.some.inj h)
    subst herr
    have hphys : 0 < n → F * 4096 &&& pageAlignMask = F * 4096 := by
      intro hpos
      rw [pageAlignMask, and_mask (page_lt (by omega)), Nat.mul_div_cancel _ (by decide)]
    obtain ⟨q₁, err, hq₁, hcase⟩ := kernelMmapInternal_spec p₀ readOnly true false
      ⟨g, hg, fun hx => hgS hx.1⟩ hP' hF (hbase.trans_lt (by decide)) hvirt hphys rfl h1 h2
    rw [hq] at hq₁
    obtain ⟨rfl, rfl⟩ := Prod.mk.inj (Option.some.inj hq₁)
    obtain ⟨hun, t, ht⟩ : p₀.Unmapped a n ∧ ∃ t, MapInv Pool.Linked p₀ (S₀ \ Set.Ico F (F + n))
        (wordOf a F readOnly true false) t (Set.Ico a (a + n)) (Set.Ico a (a + n)) q' := by
      rcases hcase with ⟨he, -⟩ | ⟨hun, -, h⟩ | ⟨-, ⟨e, he, hne⟩, -⟩
      · cases he
      · exact ⟨hun, h⟩
      · exact absurd (PagingErr.pool.inj he).symm hne
    have hbound : ∀ j ∈ Set.Ico a (a + n), frameOf a F j < Pool.frameCount := by
      intro j hj
      simp only [frameOf, Set.mem_Ico] at hj ⊢
      omega
    refine ⟨F, t, ?_, ?_⟩
    · exact
        { used := hused
          zeroed := fun j hj =>
            have hpage := hzero.page hvirt hrange h2 hj
            ⟨hpage.1, fun hp => hpage.2 hp (hun j hj hp)⟩
          missing := ⟨g, hg, hgS⟩
          below := fun j hj => by
            simp only [kernelPgdirSize, Set.mem_Ico] at hj ⊢
            clear h2
            omega
          unmapped := hun
          mem := fun j hj => by
            simp only [Set.mem_Ico] at hj
            exact hmem _ (Nat.le_add_right _ _) (by unfold frameOf; omega)
          bound := hbound
          inj := fun x hx y hy hxy => by
            simp only [frameOf, Set.mem_Ico] at hx hy hxy
            omega
          words := fun j hj => holdsFrame_pageEntry (hbound j hj) readOnly }
    · rw [frameOf_image]
      exact ht

/-- `kernel_munmap` of the region takes all of it away. -/
theorem kernelMunmap_spec {kmalloc : ℕ → Pool → ℕ}
    (hk : ∀ addr P, kmalloc addr P ≠ 0 ∧ kmalloc addr P ∉ P.alive) {e fr t : ℕ → ℕ}
    (R : Region p₀ S₀ e fr (Set.Ico a (a + n)))
    (hbase : a + n ≤ 1023 * 1024) (hvirt : virt &&& pageAlignMask = a * 4096)
    (hend : sub32 (endMap virt size) (a * 4096) = n * 4096)
    (h : MapInv Pool.Chained p₀ (S₀ \ fr '' Set.Ico a (a + n)) e t (Set.Ico a (a + n))
      (Set.Ico a (a + n)) p) :
    ∃ r, kernelMunmap kmalloc p virt size = some (r, .pool .noErr)
      ∧ MapInv Pool.Chained p₀ S₀ e t ∅ ∅ r := by
  have hstep : ∀ k < n, ∀ q, MapInv Pool.Chained p₀ (S₀ \ fr '' Set.Ico (a + k) (a + n)) e t
      (Set.Ico (a + k) (a + n)) (Set.Ico (a + k) (a + n)) q →
      ∃ r, (unmapPage kmalloc q ((a + k) * 4096)).map (fun p => (p, false)) = some r
        ∧ if r.2 then False else MapInv Pool.Chained p₀ (S₀ \ fr '' Set.Ico (a + (k + 1)) (a + n)) e t
          (Set.Ico (a + (k + 1)) (a + n)) (Set.Ico (a + (k + 1)) (a + n)) r.1 := by
    intro k hkn q hq
    have hsub : insert (a + k) (Set.Ico (a + (k + 1)) (a + n)) ⊆ Set.Ico a (a + n) := by
      rw [← Ico_succ_left hkn]
      exact Set.Ico_subset_Ico_left (Nat.le_add_right a k)
    have hnot : a + k ∉ Set.Ico (a + (k + 1)) (a + n) := fun hx => by
      have := hx.1
      omega
    rw [Ico_succ_left hkn] at hq
    obtain ⟨r, hr, hinv⟩ := hq.unmapPage hk (R.mono hsub) hnot
    exact ⟨(r, false), by rw [hr]; rfl, hinv⟩
  obtain ⟨r, hr, hinv | hinv⟩ := sweep_pages
    (fun p addr => (unmapPage kmalloc p addr).map fun p => (p, false))
    (fun k q => MapInv Pool.Chained p₀ (S₀ \ fr '' Set.Ico (a + k) (a + n)) e t
      (Set.Ico (a + k) (a + n)) (Set.Ico (a + k) (a + n)) q) (fun _ => False)
    (by decide) (page_lt (hbase.trans_lt (by decide))) hstep le_rfl (by omega) h
  · refine ⟨r, ?_, ?_⟩
    · unfold kernelMunmap
      simp only [hvirt, hend]
      rw [hr]
      rfl
    · rwa [Set.Ico_self, Set.image_empty, Set.sdiff_empty] at hinv
  · exact hinv.elim

end Calls

end Paging

/-- A well-formed pool holds frames, and not all there are. -/
theorem Pool.PageAreas.linked {P : Pool} {l : List ℕ} (h : P.PageAreas l) :
    ∃ S, P.Linked S ∧ ∃ g < frameCount, g ∉ S := by
  have hapart : Apart (l.map P.area) :=
    .of_sorted h.sorted h.disjoint h.gaps h.pos
  obtain ⟨S, hS⟩ := Frames.exists_of_aligned (K := kernelPageSize) (N := frameCount) (by decide) hapart
    h.pages h.pos fun a ha => (h.words a ha).2
  exact ⟨S, ⟨l, ⟨h.dll, h.alive⟩, hS⟩, hS.exists_missing (by decide) fun a ha => (h.words a ha).1⟩

/-- A pool that holds frames, not all there are, is well-formed. -/
theorem Pool.Linked.pageAreas {P : Pool} {S : Set ℕ} {g : ℕ} (h : P.Linked S) (hg : g < frameCount)
    (hgS : g ∉ S) : ∃ l, P.PageAreas l := by
  obtain ⟨l, L, hl⟩ := h
  have hbounds := fun a ha => hl.bounds (a := a) (by decide) hg hgS ha
  have hapart : Apart (l.map P.area) := hl.apart (by decide)
  obtain ⟨B, hB⟩ := hl
  have hpages : ∀ a ∈ l.map P.area, a.start % kernelPageSize = 0 ∧ a.size % kernelPageSize = 0 := by
    intro a ha
    rw [hB.scale] at ha
    obtain ⟨b, -, rfl⟩ := List.mem_map.1 ha
    exact ⟨Nat.mul_mod_left _ _, Nat.mul_mod_left _ _⟩
  exact ⟨l, ⟨L.dll, L.alive, hapart.sorted, hapart.disjoint, hapart.gaps, hpages,
    fun a ha => (hbounds a ha).2⟩, fun a ha => (hbounds a ha).1⟩

namespace Paging

/-- A region mapped and then unmapped leaves nothing behind: the directory, the tables in it and the
areas of the pool are as before. -/
theorem munmap_restores {kmalloc : ℕ → Pool → ℕ}
    (hk : ∀ addr P, kmalloc addr P ≠ 0 ∧ kmalloc addr P ∉ P.alive) (p : Paging) (l : List ℕ)
    (hl : p.pool.PageAreas l) (hused : p.TablesUsed) (virt size : ℕ)
    (hzero : p.Zeroed virt size) (hrange : virt + size ≤ pagingRecurPgTable) (readOnly : Bool) (q : Paging)
    (h : kernelMmap kmalloc p virt size readOnly = some (q, .pool .noErr)) :
    ∃ r, kernelMunmap kmalloc q virt size = some (r, .pool .noErr) ∧ p.Restored r := by
  obtain ⟨S₀, hP, hS⟩ := hl.linked
  obtain ⟨a, n, hvirt, hend, h1, h2, hbase⟩ := exists_pages hrange
  obtain ⟨F, t, R, hmap⟩ := kernelMmap_spec hS hP hused hzero hrange hbase hvirt hend h1 h2 h
  obtain ⟨r, hr, hinv⟩ := kernelMunmap_spec hk R hbase hvirt hend hmap.chained
  have hlayout := hinv.layout
  have hpool := hinv.pool
  rw [newTables_empty] at hlayout hpool
  rw [Set.image_empty, Set.sdiff_empty] at hpool
  obtain ⟨hdir, htab⟩ := hlayout.restored
  exact ⟨r, hr, hdir, htab, hpool.areas.eq hP.chained.areas⟩

/-- A node above all that are alive. -/
def nextNode (_addr : ℕ) (P : Pool) : ℕ := P.alive.max?.getD 0 + 1

theorem nextNode_fresh (addr : ℕ) (P : Pool) : nextNode addr P ≠ 0 ∧ nextNode addr P ∉ P.alive := by
  refine ⟨Nat.succ_ne_zero _, fun h => ?_⟩
  have : nextNode addr P ≤ P.alive.max?.getD 0 := List.le_max?_getD_of_mem h
  unfold nextNode at this
  omega

/-- One area of frames, and a table for the first pages with a page in its first entry and `w` in
the second. -/
def oneTable (w : ℕ) : Paging :=
  ⟨fun d => if d = 0 then 0x5003 else 0,
    fun d i => if d = 0 then if i = 0 then 0x6003 else if i = 1 then w else 0 else 0,
    ⟨fun _ => ⟨0x100000, 0x10000, 0, 0⟩, [1], 1⟩⟩

theorem oneTable_pageAreas (w : ℕ) : (oneTable w).pool.PageAreas [1] where
  dll := ⟨by simp [oneTable, DLink], rfl, by simp, by simp⟩
  alive := by simp [oneTable]
  sorted := List.pairwise_singleton _ _
  disjoint := List.pairwise_singleton _ _
  gaps := List.pairwise_singleton _ _
  pages := by simp [oneTable, Pool.area, kernelPageSize]
  words := by simp [oneTable, Pool.area, Area.stop]
  pos := by simp [oneTable, Pool.area]

theorem oneTable_tablesUsed (w : ℕ) : (oneTable w).TablesUsed := by
  intro d _ hd hempty
  by_cases h0 : d = 0
  · subst h0
    exact hempty 0 (by decide) (by simp [Mapped, oneTable])
  · simp [Present, oneTable, h0] at hd

theorem oneTable_zeroed (virt size : ℕ) : (oneTable 0).Zeroed virt size := by
  intro addr _ _
  generalize pgdirEntry addr = d
  generalize pgtableEntry addr = i
  by_cases h0 : d = 0
  · subst h0
    refine ⟨fun h => absurd h (by simp [Present, oneTable]), fun _ hi => ?_⟩
    by_cases hi0 : i = 0
    · subst hi0
      simp [Mapped, oneTable] at hi
    · simp [oneTable, hi0]
  · exact ⟨fun _ => by simp [oneTable, h0], fun h => by simp [Present, oneTable, h0] at h⟩

theorem munmap_restores_two_tables : ∃ q,
    kernelMmap nextNode (oneTable 0) 0x3FF800 0x1000 false = some (q, .pool .noErr)
      ∧ ∃ r, kernelMunmap nextNode q 0x3FF800 0x1000 = some (r, .pool .noErr)
        ∧ (oneTable 0).Restored r := by
  have h : (kernelMmap nextNode (oneTable 0) 0x3FF800 0x1000 false).map Prod.snd
      = some (.pool .noErr) := by decide +kernel
  obtain ⟨⟨q, err⟩, hq, rfl⟩ := Option.map_eq_some_iff.1 h
  exact ⟨q, hq, munmap_restores nextNode_fresh (oneTable 0) [1] (oneTable_pageAreas 0)
    (oneTable_tablesUsed 0) 0x3FF800 0x1000 (oneTable_zeroed _ _) (by decide) false q hq⟩

/-- An empty area before the frames. -/
def emptyFirst : Paging :=
  ⟨fun _ => 0, fun _ _ => 0, ⟨fun n => if n = 1 then ⟨0x100000, 0, 2, 0⟩ else ⟨0x200000, 0x10000, 0, 1⟩,
    [1, 2], 1⟩⟩

theorem emptyFirst_alignedAreas : emptyFirst.pool.AlignedAreas [1, 2] where
  dll := ⟨by simp [emptyFirst, DLink], rfl, by simp, by simp⟩
  alive := by simp [emptyFirst]
  sorted := by simp [emptyFirst, Pool.area]
  disjoint := by simp [emptyFirst, Pool.area, Area.bytes, Area.stop]
  gaps := by simp [emptyFirst, Pool.area, Area.stop]
  pages := by simp [emptyFirst, Pool.area, kernelPageSize]
  words := by simp [emptyFirst, Pool.area, Area.stop]

/-- An entry of the region that is not present and not zero is not restored, and neither is an empty
area when no page is mapped. -/
theorem not_restored :
    (∀ addr P, nextNode addr P ≠ 0 ∧ nextNode addr P ∉ P.alive)
      ∧ ((oneTable 2).pool.PageAreas [1] ∧ (oneTable 2).TablesUsed
        ∧ ∃ q r, kernelMmap nextNode (oneTable 2) 0x1000 0x1000 false = some (q, .pool .noErr)
          ∧ kernelMunmap nextNode q 0x1000 0x1000 = some (r, .pool .noErr)
          ∧ r.pgtable 0 1 = 0 ∧ ¬ (oneTable 2).Restored r)
      ∧ emptyFirst.pool.AlignedAreas [1, 2] ∧ emptyFirst.TablesUsed
        ∧ ∃ q r, kernelMmap nextNode emptyFirst 0x1000 0 false = some (q, .pool .noErr)
          ∧ kernelMunmap nextNode q 0x1000 0 = some (r, .pool .noErr)
          ∧ r.pool.areaList = [2] ∧ ¬ emptyFirst.Restored r := by
  refine ⟨nextNode_fresh, ⟨oneTable_pageAreas 2, oneTable_tablesUsed 2, ?_⟩, emptyFirst_alignedAreas,
    fun d _ hd => absurd hd (by simp [Present, emptyFirst]), ?_⟩
  · have h : ((kernelMmap nextNode (oneTable 2) 0x1000 0x1000 false).bind fun x =>
        (kernelMunmap nextNode x.1 0x1000 0x1000).map fun y => (x.2, y.2, y.1.pgtable 0 1))
        = some (.pool .noErr, .pool .noErr, 0) := by decide +kernel
    obtain ⟨⟨q, err⟩, hq, h⟩ := Option.bind_eq_some_iff.1 h
    obtain ⟨⟨r, err'⟩, hr, h⟩ := Option.map_eq_some_iff.1 h
    simp only [Prod.mk.injEq] at h
    obtain ⟨rfl, rfl, h0⟩ := h
    refine ⟨q, r, hq, hr, h0, fun hres => ?_⟩
    have := hres.pgtable 0 (by simp [Present, oneTable]) 1 (by decide)
    rw [h0] at this
    exact absurd this (by decide)
  · have h : ((kernelMmap nextNode emptyFirst 0x1000 0 false).bind fun x =>
        (kernelMunmap nextNode x.1 0x1000 0).map fun y => (x.2, y.2, y.1.pool.areaList))
        = some (.pool .noErr, .pool .noErr, [2]) := by decide +kernel
    obtain ⟨⟨q, err⟩, hq, h⟩ := Option.bind_eq_some_iff.1 h
    obtain ⟨⟨r, err'⟩, hr, h⟩ := Option.map_eq_some_iff.1 h
    simp only [Prod.mk.injEq] at h
    obtain ⟨rfl, rfl, hlist⟩ := h
    refine ⟨q, r, hq, hr, hlist, fun hres => ?_⟩
    have hlen := congrArg List.length hres.areas
    rw [hlist, List.length_map, List.length_map] at hlen
    exact absurd hlen (by decide)

end Paging

end RTLKIM

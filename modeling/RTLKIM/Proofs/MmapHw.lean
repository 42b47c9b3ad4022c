import RTLKIM.Proofs.PageMemory

/-!
# `kernel_mmap_hw` maps the region and nothing else

The entry of a page is read off the tables of `Paging` (`pageAt`). Where a `Layout` maps the page it
is the word of the page, and elsewhere it is what it was: a new table has no page but those mapped.
By `Sim` the walk of an address in memory finds the entry of its page, so this is what the addresses
of the region and all others translate to.
-/

namespace RTLKIM

namespace Paging

variable {p p₀ q : Paging} {e t : ℕ → ℕ} {S W : Set ℕ} {j f : ℕ}

/-! ## The entry of a page -/

/-- The entry of the page `j`, if it is mapped. -/
def pageAt (p : Paging) (j : ℕ) : Option ℕ :=
  if p.Present (j / 1024) ∧ p.Mapped (j / 1024) (j % 1024) then some (p.pgtable (j / 1024) (j % 1024))
  else none

theorem pageAt_isSome :
    (p.pageAt j).isSome ↔ p.Present (j / 1024) ∧ p.Mapped (j / 1024) (j % 1024) := by
  unfold pageAt
  split_ifs with h
  · exact iff_of_true rfl h
  · exact iff_of_false (by simp) h

theorem pageAt_of_absent (h : ¬ p.Present (j / 1024)) : p.pageAt j = none := if_neg fun h' => h h'.1

/-- Tables with the same entry for the page. -/
theorem pageAt_congr (hp : p.Present (j / 1024) ↔ q.Present (j / 1024))
    (hw : q.Present (j / 1024) →
      p.pgtable (j / 1024) (j % 1024) = q.pgtable (j / 1024) (j % 1024)) :
    p.pageAt j = q.pageAt j := by
  by_cases hq : q.Present (j / 1024)
  · have hsame := hw hq
    have hmap : p.Mapped (j / 1024) (j % 1024) ↔ q.Mapped (j / 1024) (j % 1024) := by
      unfold Mapped
      rw [hsame]
    unfold pageAt
    simp only [hp, hmap, hsame]
  · rw [pageAt_of_absent hq, pageAt_of_absent fun h => hq (hp.1 h)]

/-- A page that has been mapped. -/
theorem MapInv.pageAt_mem (h : MapInv Pool.Linked p₀ S e t W W q) (hj : j ∈ W)
    (he : e j &&& pageFlagPresent ≠ 0) : q.pageAt j = some (e j) := by
  have hpage := h.layout.page j hj
  have hpres : q.Present (j / 1024) := by
    by_cases hd : j / 1024 ∈ newTables p₀ W
    · exact h.layout.present_new hd (h.tables.holdsFrame hd)
    · rw [h.layout.present_old hd]
      by_contra hp
      exact hd ⟨hp, j, hj, rfl⟩
  have hmap : q.Mapped (j / 1024) (j % 1024) := by
    unfold Mapped
    rwa [hpage]
  rw [pageAt, if_pos ⟨hpres, hmap⟩, hpage]

/-- A page that has not. -/
theorem MapInv.pageAt_of_not_mem (h : MapInv Pool.Linked p₀ S e t W W q) (hj : j ∉ W) :
    q.pageAt j = p₀.pageAt j := by
  have hi : j % 1024 < 1024 := Nat.mod_lt _ (by decide)
  have hj' : j / 1024 * 1024 + j % 1024 ∉ W := by rwa [Nat.div_add_mod']
  by_cases hd : j / 1024 ∈ newTables p₀ W
  · -- its table is new, and the page is not in it
    rw [pageAt_of_absent hd.1]
    refine if_neg fun hm => hm.2 ?_
    rw [h.layout.table_new _ hd _ hi hj']
    rfl
  · exact pageAt_congr (h.layout.present_old hd) fun hp => h.layout.table_old _ hd hp _ hi hj'

/-- Mapping takes no page away. -/
theorem MapInv.pageAt_keeps (h : MapInv Pool.Linked p₀ S e t W W q)
    (he : ∀ j, e j &&& pageFlagPresent ≠ 0) (hj : (p₀.pageAt j).isSome) : (q.pageAt j).isSome := by
  by_cases hmem : j ∈ W
  · rw [h.pageAt_mem hmem (he j)]
    rfl
  · rwa [h.pageAt_of_not_mem hmem]

/-- Tables that are in the directory let their pages be written. -/
def DirWritable (p : Paging) : Prop :=
  ∀ d < kernelPgdirSize, p.Present d → p.pgdir d &&& pageFlagReadWrite ≠ 0

/-- A new table does. -/
theorem MapInv.dirWritable {W' : Set ℕ} (h : MapInv Pool.Linked p₀ S e t W W' q)
    (hp : p₀.DirWritable) : q.DirWritable := by
  intro d hd hpres
  by_cases hnew : d ∈ newTables p₀ W'
  · rw [h.layout.dir_new d hnew, tableWord, kernelPageSize, packed_and_flags (by decide)]
    decide
  · rw [h.layout.dir_old d hnew]
    exact hp d hd ((h.layout.present_old hnew).1 hpres)

/-- However `kernel_mmap_internal` ends. -/
theorem dirWritable_of_cases {a n F : ℕ} {readOnly cacheEnabled hardware : Bool} {err : PagingErr}
    (hp : p₀.DirWritable)
    (h : (err = .mappingAlreadyExists ∧ q = p₀ ∧ ¬ p₀.Unmapped a n)
      ∨ (p₀.Unmapped a n ∧ err = .pool .noErr
        ∧ ∃ t, MapInv Pool.Linked p₀ S (wordOf a F readOnly cacheEnabled hardware) t
          (Set.Ico a (a + n)) (Set.Ico a (a + n)) q)
      ∨ (p₀.Unmapped a n ∧ (∃ e, err = .pool e ∧ e ≠ .noErr)
        ∧ MapStop p₀ S a F n readOnly cacheEnabled hardware q)) : q.DirWritable := by
  rcases h with ⟨-, rfl, -⟩ | ⟨-, -, t, hmap⟩ | ⟨-, -, k, -, t, hmap, -⟩
  · exact hp
  · exact hmap.dirWritable hp
  · exact hmap.dirWritable hp

/-! ## The word of a page -/

/-- A flag of the word of a page. -/
theorem pageEntry_and {k : ℕ} (hk : k < 4096) (readOnly cacheEnabled hardware : Bool) :
    pageEntry (f * kernelPageSize) readOnly cacheEnabled hardware &&& k
      = pageEntry 0 readOnly cacheEnabled hardware &&& k := by
  rw [pageEntry_eq, packed_and_flags hk]

theorem pageEntry_present (readOnly cacheEnabled hardware : Bool) :
    pageEntry (f * kernelPageSize) readOnly cacheEnabled hardware &&& pageFlagPresent ≠ 0 := by
  rw [pageEntry_and (by decide)]
  cases readOnly <;> cases cacheEnabled <;> cases hardware <;> decide

theorem pageEntry_readWrite (readOnly cacheEnabled hardware : Bool) :
    pageEntry (f * kernelPageSize) readOnly cacheEnabled hardware &&& pageFlagReadWrite ≠ 0
      ↔ readOnly = false := by
  rw [pageEntry_and (by decide)]
  cases readOnly <;> cases cacheEnabled <;> cases hardware <;> decide

theorem pageEntry_hardware (readOnly cacheEnabled : Bool) :
    pageEntry (f * kernelPageSize) readOnly cacheEnabled true &&& pageFlagHardware ≠ 0 := by
  rw [pageEntry_and (by decide)]
  cases readOnly <;> cases cacheEnabled <;> decide

theorem entryFrame_pageEntry (hf : f < Pool.frameCount) (readOnly cacheEnabled hardware : Bool) :
    entryFrame (pageEntry (f * kernelPageSize) readOnly cacheEnabled hardware) = f := by
  rw [pageEntry_eq]
  exact entryFrame_packed hf (pageEntry_zero_lt _ _ _)

end Paging

namespace PageMemory

open Paging (pageAt wordOf frameOf)

variable {s : PageMemory} {S : Set ℕ} {p : Paging}

/-- The walk of an address finds the entry of its page as it is seen through the window. -/
theorem walk_eq (s : PageMemory) (x : ℕ) : s.memory.walk x = s.paging.pageAt (x / 4096) := by
  have hd : x / 2 ^ 22 = x / 4096 / 1024 := by omega
  have hi : x / 2 ^ 12 % 2 ^ 10 = x / 4096 % 1024 := by omega
  unfold Memory.walk
  simp only [hd, hi]
  by_cases hp : s.memory.dirWord (x / 4096 / 1024) &&& 1 = 0
  · have hp' : ¬ s.paging.Present (x / 4096 / 1024) := fun h => h hp
    rw [if_pos hp, Paging.pageAt_of_absent hp']
  · have hp' : s.paging.Present (x / 4096 / 1024) := hp
    rw [if_neg hp]
    unfold pageAt
    by_cases hm : s.memory.word (entryFrame (s.memory.dirWord (x / 4096 / 1024))) (x / 4096 % 1024)
        &&& 1 = 0
    · rw [if_pos hm, if_neg fun h => h.2 hm]
    · rw [if_neg hm, if_pos ⟨hp', hm⟩]
      rfl

/-- Related states have the same pages below the window. -/
theorem Sim.walk (h : Sim S s p) {x : ℕ} (hx : x < pagingRecurPgTable) :
    s.memory.walk x = p.pageAt (x / 4096) := by
  have hlt : x / 4096 / 1024 < 1023 := by
    simp only [pagingRecurPgTable] at hx
    omega
  rw [walk_eq]
  exact Paging.pageAt_congr (h.present (by omega)) fun hp =>
    h.table _ hlt hp _ (Nat.mod_lt _ (by decide))

theorem Sim.dirWritable_iff (h : Sim S s p) : s.memory.DirWritable ↔ p.DirWritable := by
  refine forall₂_congr fun d hd => ?_
  rw [h.dir d hd]
  rfl

/-- The pages of a region are those of its addresses. -/
theorem region_pages {virt size a n : ℕ} (hsize : 1 ≤ size)
    (hvirt : virt + size ≤ pagingRecurPgTable) (ha : virt &&& pageAlignMask = a * 4096)
    (h1 : add32 size (sub32 virt (a * 4096)) ≤ n * 4096)
    (h2 : n * 4096 < add32 size (sub32 virt (a * 4096)) + 4096) (j : ℕ) :
    j ∈ Set.Ico a (a + n) ↔ ∃ i < size, (virt + i) / 4096 = j := by
  simp only [pagingRecurPgTable] at hvirt
  have hdiv : a = virt / 4096 := by
    rw [pageAlignMask, and_mask (by omega)] at ha
    omega
  have hsub : sub32 virt (a * 4096) = virt % 4096 := by
    rw [hdiv, sub32_of_le (by omega) (by omega)]
    omega
  rw [hsub, add32_of_lt (by omega)] at h1 h2
  rw [Set.mem_Ico]
  constructor
  · intro hj
    by_cases hja : j = a
    · exact ⟨0, hsize, by omega⟩
    · exact ⟨j * 4096 - virt, by omega, by omega⟩
  · rintro ⟨i, hi, rfl⟩
    omega

/-- There are frames for the pages of a region. -/
theorem frames_le {virt phys size a n : ℕ}
    (hpages : ∀ j, j ∈ Set.Ico a (a + n) ↔ ∃ i < size, (virt + i) / 4096 = j)
    (hmod : virt % 4096 = phys % 4096) (hphys : phys + size ≤ 2 ^ 32) :
    phys / 4096 + n ≤ Pool.frameCount := by
  simp only [Pool.frameCount]
  rcases n with _ | n
  · omega
  · -- the last page of the region has an address
    obtain ⟨i, hi, hlast⟩ := (hpages (a + n)).1 ⟨by omega, by omega⟩
    obtain ⟨k, hk, hfirst⟩ := (hpages a).1 ⟨le_rfl, by omega⟩
    omega

section Region

variable {r : PageMemory} {S' : Set ℕ} {q : Paging} {virt phys size a n i x : ℕ}
  {readOnly cacheEnabled : Bool} {t : ℕ → ℕ}

/-- An address of a region that is mapped translates into the frames it is mapped to. -/
theorem Sim.walk_mapped (hr : Sim S' r q)
    (hmap : Paging.MapInv Pool.Linked s.paging S (wordOf a (phys / 4096) readOnly cacheEnabled true) t
      (Set.Ico a (a + n)) (Set.Ico a (a + n)) q)
    (ha : a = virt / 4096) (hj : (virt + i) / 4096 ∈ Set.Ico a (a + n))
    (hmod : virt % 4096 = phys % 4096) (hphys : phys + i < 2 ^ 32)
    (hvirt : virt + i < pagingRecurPgTable) :
    r.memory.translate (virt + i) = some (phys + i)
      ∧ ∃ e, r.memory.walk (virt + i) = some e
        ∧ (e &&& pageFlagReadWrite ≠ 0 ↔ readOnly = false) ∧ e &&& pageFlagHardware ≠ 0 := by
  have hwalk := hr.walk hvirt
  rw [hmap.pageAt_mem hj (Paging.pageEntry_present _ _ _)] at hwalk
  have hframe : frameOf a (phys / 4096) ((virt + i) / 4096) = (phys + i) / 4096 := by
    unfold frameOf
    omega
  refine ⟨?_, _, hwalk, Paging.pageEntry_readWrite _ _ _, Paging.pageEntry_hardware _ _⟩
  rw [Memory.translate, hwalk, Option.map_some, wordOf, hframe,
    Paging.entryFrame_pageEntry (by simp only [Pool.frameCount]; omega)]
  congr 1
  omega

/-- An address out of it translates as before. -/
theorem Sim.walk_kept {W : Set ℕ} {e : ℕ → ℕ} (h : Sim S s s.paging) (hr : Sim S' r q)
    (hmap : Paging.MapInv Pool.Linked s.paging S e t W W q) (hj : x / 4096 ∉ W)
    (hx : x < pagingRecurPgTable) :
    r.memory.walk x = s.memory.walk x ∧ r.memory.translate x = s.memory.translate x := by
  have hwalk : r.memory.walk x = s.memory.walk x := by
    rw [hr.walk hx, h.walk hx, hmap.pageAt_of_not_mem hj]
  exact ⟨hwalk, by rw [Memory.translate, Memory.translate, hwalk]⟩

/-- An address of the region has a page if a page of it is mapped. -/
theorem Sim.walk_isSome_iff (h : Sim S s s.paging) (hvirt : virt + size ≤ pagingRecurPgTable)
    (hpages : ∀ j, j ∈ Set.Ico a (a + n) ↔ ∃ i < size, (virt + i) / 4096 = j) :
    (∃ i < size, (s.memory.walk (virt + i)).isSome) ↔ ¬ s.paging.Unmapped a n := by
  have hbelow : ∀ i < size, virt + i < pagingRecurPgTable := fun i hi => by omega
  unfold Paging.Unmapped
  push Not
  constructor
  · rintro ⟨i, hi, hw⟩
    rw [h.walk (hbelow i hi), Paging.pageAt_isSome] at hw
    exact ⟨_, (hpages _).2 ⟨i, hi, rfl⟩, hw⟩
  · rintro ⟨j, hj, hw⟩
    obtain ⟨i, hi, rfl⟩ := (hpages j).1 hj
    refine ⟨i, hi, ?_⟩
    rw [h.walk (hbelow i hi), Paging.pageAt_isSome]
    exact hw

end Region

/-- `kernel_mmap_hw` of a region below the recursive window does on the tables in memory what the call on
`Paging` does. -/
theorem PageTables.kernelMmapHw (h : s.PageTables) {virt phys size : ℕ} (readOnly exec : Bool)
    (hsize : 1 ≤ size) (hmod : virt % kernelPageSize = phys % kernelPageSize)
    (hphys : phys + size ≤ 2 ^ 32) (hvirt : virt + size ≤ pagingRecurPgTable) :
    ∃ r err S S' q n, s.kernelMmapHw virt phys size readOnly exec = some (r, err)
      ∧ Sim S s s.paging ∧ Sim S' r q
      ∧ (∀ j, j ∈ Set.Ico (virt / 4096) (virt / 4096 + n) ↔ ∃ i < size, (virt + i) / 4096 = j)
      ∧ ((err = .mappingAlreadyExists ∧ q = s.paging ∧ ¬ s.paging.Unmapped (virt / 4096) n)
        ∨ (s.paging.Unmapped (virt / 4096) n ∧ err = .pool .noErr
          ∧ ∃ t, Paging.MapInv Pool.Linked s.paging S
            (wordOf (virt / 4096) (phys / 4096) readOnly false true) t
            (Set.Ico (virt / 4096) (virt / 4096 + n)) (Set.Ico (virt / 4096) (virt / 4096 + n)) q)
        ∨ (s.paging.Unmapped (virt / 4096) n ∧ (∃ e, err = .pool e ∧ e ≠ .noErr)
          ∧ Paging.MapStop s.paging S (virt / 4096) (phys / 4096) n readOnly false true q)) := by
  obtain ⟨S, hS⟩ := h.sim
  obtain ⟨a, n, ha, -, h1, h2, hbase⟩ := Paging.exists_pages hvirt
  have hpages := region_pages hsize hvirt ha h1 h2
  obtain rfl : a = virt / 4096 := by
    simp only [pagingRecurPgTable] at hvirt
    have hround : virt / 4096 * 4096 = a * 4096 := (and_mask (by omega)).symm.trans ha
    omega
  have hF : phys / 4096 + n ≤ Pool.frameCount := frames_le hpages hmod hphys
  have hmask : phys &&& pageAlignMask = phys / 4096 * 4096 := and_mask (by omega)
  obtain ⟨q, err, hq, hcase⟩ := Paging.kernelMmapInternal_spec s.paging readOnly false true hS.missing
    hS.linked hF (hbase.trans_lt (by decide)) ha (fun _ => hmask) rfl h1 h2
  obtain ⟨r, hr, S', hS'⟩ := hS.kernelMmapInternal exec hbase ha h1 hq
  exact ⟨r, err, S, S', q, n, hr, hS, hS', hpages, hcase⟩

/-- `kernel_mmap_hw` takes no page away, whether it succeeds or not; there are pages where it says so. -/
theorem PageTables.kernelMmapHw_keeps (h : s.PageTables) {virt phys size : ℕ} (readOnly exec : Bool)
    (hsize : 1 ≤ size) (hmod : virt % kernelPageSize = phys % kernelPageSize)
    (hphys : phys + size ≤ 2 ^ 32) (hvirt : virt + size ≤ pagingRecurPgTable) :
    ∃ r err, s.kernelMmapHw virt phys size readOnly exec = some (r, err) ∧ r.PageTables
      ∧ (∀ x < pagingRecurPgTable, (s.memory.walk x).isSome → (r.memory.walk x).isSome)
      ∧ (err = .pool .noErr → ∀ i < size, (r.memory.walk (virt + i)).isSome)
      ∧ (err = .mappingAlreadyExists → ∃ i < size, (s.memory.walk (virt + i)).isSome) := by
  obtain ⟨r, err, S, S', q, n, hr, hS, hS', hpages, hcase⟩ :=
    h.kernelMmapHw readOnly exec hsize hmod hphys hvirt
  have hword : ∀ j, wordOf (virt / 4096) (phys / 4096) readOnly false true j &&& pageFlagPresent ≠ 0 :=
    fun j => Paging.pageEntry_present _ _ _
  refine ⟨r, err, hr, hS'.pageTables, fun x hx hsome => ?_, fun herr i hi => ?_, fun herr => ?_⟩
  · rw [hS.walk hx] at hsome
    rw [hS'.walk hx]
    rcases hcase with ⟨-, rfl, -⟩ | ⟨-, -, t, hmap⟩ | ⟨-, -, k, -, t, hmap, -⟩
    · exact hsome
    · exact hmap.pageAt_keeps hword hsome
    · exact hmap.pageAt_keeps hword hsome
  · rcases hcase with ⟨he, -⟩ | ⟨-, -, t, hmap⟩ | ⟨-, ⟨e, he, hne⟩, -⟩
    · rw [herr] at he
      cases he
    · rw [hS'.walk (by omega), hmap.pageAt_mem ((hpages _).2 ⟨i, hi, rfl⟩) (hword _)]
      rfl
    · rw [herr] at he
      exact absurd (PagingErr.pool.inj he).symm hne
  · rcases hcase with ⟨-, -, hun⟩ | ⟨-, he, -⟩ | ⟨-, ⟨e, he, -⟩, -⟩
    · exact (hS.walk_isSome_iff hvirt hpages).2 hun
    · rw [herr] at he
      cases he
    · rw [herr] at he
      cases he

/-- `kernel_mmap_hw` of a region below the recursive window returns, and leaves well-formed tables.
If it succeeds the region translates as asked, with the protection asked for by both levels of tables,
and the pages out of it as before, and it refuses exactly the regions that have a page already. -/
theorem kernel_mmap_hw_maps (s : PageMemory) (h : s.PageTables) (hdir : s.memory.DirWritable)
    (virt phys size : ℕ) (readOnly exec : Bool) (hsize : 1 ≤ size)
    (hmod : virt % kernelPageSize = phys % kernelPageSize)
    (hphys : phys + size ≤ 2 ^ 32) (hvirt : virt + size ≤ pagingRecurPgTable) :
    ∃ r err, s.kernelMmapHw virt phys size readOnly exec = some (r, err) ∧ r.PageTables
      ∧ r.memory.DirWritable
      ∧ (err = .pool .noErr →
        (∀ i < size, r.memory.translate (virt + i) = some (phys + i)
          ∧ r.memory.writable (virt + i) = !readOnly
          ∧ ∃ e, r.memory.walk (virt + i) = some e
            ∧ (e &&& pageFlagReadWrite ≠ 0 ↔ readOnly = false) ∧ e &&& pageFlagHardware ≠ 0)
        ∧ ∀ x < pagingRecurPgTable,
          (∀ i < size, x / kernelPageSize ≠ (virt + i) / kernelPageSize) →
            r.memory.walk x = s.memory.walk x ∧ r.memory.translate x = s.memory.translate x
              ∧ r.memory.writable x = s.memory.writable x)
      ∧ (err = .mappingAlreadyExists ↔ ∃ i < size, (s.memory.walk (virt + i)).isSome) := by
  obtain ⟨r, err, S, S', q, n, hr, hS, hS', hpages, hcase⟩ :=
    h.kernelMmapHw readOnly exec hsize hmod hphys hvirt
  have hdir' : r.memory.DirWritable :=
    hS'.dirWritable_iff.2 (Paging.dirWritable_of_cases (hS.dirWritable_iff.1 hdir) hcase)
  refine ⟨r, err, hr, hS'.pageTables, hdir', fun herr => ?_, ?_⟩
  · obtain ⟨t, hmap⟩ : ∃ t, Paging.MapInv Pool.Linked s.paging S
        (wordOf (virt / 4096) (phys / 4096) readOnly false true) t
        (Set.Ico (virt / 4096) (virt / 4096 + n)) (Set.Ico (virt / 4096) (virt / 4096 + n)) q := by
      rcases hcase with ⟨he, -⟩ | ⟨-, -, hmap⟩ | ⟨-, ⟨e, he, hne⟩, -⟩
      · rw [herr] at he
        cases he
      · exact hmap
      · rw [herr] at he
        exact absurd (PagingErr.pool.inj he).symm hne
    refine ⟨fun i hi => ?_, fun x hx hout => ?_⟩
    · obtain ⟨htranslate, e, hwalk, hwrite, hhardware⟩ := hS'.walk_mapped hmap rfl
        ((hpages _).2 ⟨i, hi, rfl⟩) hmod (by omega) (by omega)
      refine ⟨htranslate, ?_, e, hwalk, hwrite, hhardware⟩
      rw [hdir'.writable_eq (by simp only [pagingRecurPgTable] at hvirt; omega), hwalk, Option.any_some,
        decide_eq_decide.2 hwrite]
      cases readOnly <;> rfl
    · obtain ⟨hwalk, htranslate⟩ := hS.walk_kept (x := x) hS' hmap (by
        rw [hpages]
        rintro ⟨i, hi, hix⟩
        exact hout i hi hix.symm) hx
      have hlt : x < 2 ^ 32 := hx.trans (by decide)
      exact ⟨hwalk, htranslate, by rw [hdir'.writable_eq hlt, hdir.writable_eq hlt, hwalk]⟩
  · rw [hS.walk_isSome_iff hvirt hpages]
    rcases hcase with ⟨he, -, hun⟩ | ⟨hun, he, -⟩ | ⟨hun, ⟨e, he, -⟩, -⟩
    · exact iff_of_true he hun
    · rw [he]
      exact iff_of_false (by simp) (not_not.2 hun)
    · rw [he]
      exact iff_of_false (by simp) (not_not.2 hun)

/-- The directory in frame 2, in frame 5 a table for the first pages with a page in its first entry,
and `size` bytes of free frames. -/
def firstTable (size : ℕ) : PageMemory where
  memory := ⟨fun f i => if f = 2 then if i = 1023 then 0x2003 else if i = 0 then 0x5003 else 0
    else if f = 5 ∧ i = 0 then 0x6003 else 0, 2⟩
  pool := ⟨fun _ => ⟨0x100000, size, 0, 0⟩, [1], 1⟩

theorem firstTable_present {size d : ℕ} (h : (firstTable size).Present d) : d = 0 ∨ d = 1023 := by
  by_contra hd
  push Not at hd
  exact h (by simp [firstTable, Memory.dirWord, hd])

theorem firstTable_pageTables {size : ℕ} (hpages : size % kernelPageSize = 0) (hpos : 0 < size)
    (hlt : size < 2 ^ 31) : (firstTable size).PageTables where
  recursive := ⟨by simp [firstTable, Memory.dirWord], by simp [firstTable, Memory.dirWord, entryFrame]⟩
  own := by
    intro d _ d' _ hp hp' he
    rcases firstTable_present hp with rfl | rfl <;> rcases firstTable_present hp' with rfl | rfl
    · rfl
    · simp [tableFrame, firstTable, Memory.dirWord, entryFrame] at he
    · simp [tableFrame, firstTable, Memory.dirWord, entryFrame] at he
    · rfl
  taken := by
    intro d _ hp a ha
    obtain rfl : a = ⟨0x100000, size⟩ := List.mem_singleton.1 ha
    rcases firstTable_present hp with rfl | rfl
    · simp [tableFrame, firstTable, Memory.dirWord, entryFrame, Area.bytes, kernelPageSize]
    · simp [tableFrame, firstTable, Memory.dirWord, entryFrame, Area.bytes, kernelPageSize]
  pool := ⟨[1],
    { dll := ⟨by simp [firstTable, DLink], rfl, by simp, by simp⟩
      alive := by simp [firstTable]
      sorted := List.pairwise_singleton _ _
      disjoint := List.pairwise_singleton _ _
      gaps := List.pairwise_singleton _ _
      pages := by simp [firstTable, Pool.area, hpages, kernelPageSize]
      words := by
        simp only [firstTable, Pool.area, Area.stop, List.map_cons, List.map_nil, List.mem_singleton,
          forall_eq]
        omega
      pos := by simp [firstTable, Pool.area, hpos] }⟩

theorem firstTable_dirWritable (size : ℕ) : (firstTable size).memory.DirWritable := by
  intro d _ hp
  have hd : d = 0 ∨ d = 1023 := firstTable_present hp
  rcases hd with rfl | rfl
  · simp [firstTable, Memory.dirWord]
  · simp [firstTable, Memory.dirWord]

/-- Two pages that can be written. -/
theorem kernel_mmap_hw_maps_two_pages : ∃ r,
    (firstTable 0x10000).kernelMmapHw 0x1800 0xFEC00800 0x1000 false false = some (r, .pool .noErr)
      ∧ r.memory.translate 0x27FF = some 0xFEC017FF ∧ r.memory.writable 0x27FF = true
      ∧ r.memory.translate 0x10 = (firstTable 0x10000).memory.translate 0x10 := by
  have hcode : ((firstTable 0x10000).kernelMmapHw 0x1800 0xFEC00800 0x1000 false false).map Prod.snd
      = some (.pool .noErr) := by decide +kernel
  obtain ⟨r, err, hr, -, -, hok, -⟩ := kernel_mmap_hw_maps (firstTable 0x10000)
    (firstTable_pageTables (by decide) (by decide) (by decide)) (firstTable_dirWritable _) 0x1800
    0xFEC00800 0x1000 false false (by decide) (by decide) (by decide) (by decide)
  rw [hr] at hcode
  obtain rfl : err = .pool .noErr := Option.some.inj hcode
  obtain ⟨hin, hout⟩ := hok rfl
  obtain ⟨htranslate, hwritable, -⟩ := hin 0xFFF (by decide)
  refine ⟨r, hr, htranslate, hwritable, (hout 0x10 (by decide) fun i hi => ?_).2.1⟩
  simp only [kernelPageSize]
  omega

end PageMemory

end RTLKIM

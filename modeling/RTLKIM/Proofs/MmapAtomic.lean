import RTLKIM.Proofs.MmapHw

/-!
# When a failed `kernel_mmap` changes nothing

`kernel_mmap` gives its block of frames back when the mapping fails, and the mapping itself undoes
nothing. A region that has a page already, and any that comes to the last page, is refused before
anything is written. Otherwise the loop goes up the pages, first below the window, where it is the
loop of `Paging`, and then into it, where the directory is the table and no frame is wanted. It
stops where there is no frame for a table: at the first page nothing has been written, and after it
a page is left mapped. Which of these it is can be counted: a table takes one frame, so the loop
stops exactly if fewer frames are left than tables are missing.
-/

namespace RTLKIM

namespace PageMemory

variable {s : PageMemory} {virt size : ℕ}

/-! ## The pages of a region -/

/-- A region as the calls round it: `to_map` bytes from the page `virt / 4096` on. -/
structure Region (virt size a n toMap : ℕ) : Prop where
  start : virt &&& pageAlignMask = a * 4096
  bytes : add32 size (sub32 virt (a * 4096)) = toMap
  lower : toMap ≤ n * 4096
  upper : n * 4096 < toMap + 4096
  words : a < 2 ^ 20 ∧ toMap < 2 ^ 32
  count : sub32 (endMap virt size) (a * 4096) / 4096 = n % 2 ^ 20

theorem region (size : ℕ) (hv : virt < 2 ^ 32) :
    ∃ toMap, Region virt size (virt / 4096) (regionCount virt size) toMap := by
  have hmask : virt &&& pageAlignMask = virt / 4096 * 4096 := and_mask hv
  have hsub : sub32 virt (virt / 4096 * 4096) = virt % 4096 := by
    rw [sub32_of_le (by omega) hv]
    omega
  have hn : regionCount virt size = (add32 size (virt % 4096) + 4095) / 4096 := by
    unfold regionCount
    rw [hmask, hsub]
    rfl
  have hlt := add32_lt size (virt % 4096)
  refine ⟨add32 size (virt % 4096), hmask, by rw [hsub], ?_, ?_, ⟨by omega, hlt⟩, ?_⟩
  · omega
  · omega
  · rw [hn]
    have hend : endMap virt size = (add32 virt size + 4095) / 4096 * 4096 % 2 ^ 32 := by
      unfold endMap
      have hstop := add32_lt virt size
      generalize add32 virt size = stop at hstop ⊢
      simp only [kernelPageSize, pageAlignMask]
      rw [and_mask hstop]
      split_ifs with hr
      · unfold add32
        omega
      · omega
    rw [hend]
    unfold sub32 add32
    omega

/-- The last page is mapped, by the recursive mapping. -/
theorem last_page (h : s.memory.Recursive) : s.paging.Present 1023 ∧ s.paging.Mapped 1023 1023 := by
  have hword : s.paging.pgtable 1023 1023 = s.memory.dirWord 1023 := by
    change s.memory.word (entryFrame (s.memory.dirWord 1023)) 1023 = s.memory.word s.memory.cr3 1023
    rw [h.frame]
  refine ⟨h.present, ?_⟩
  unfold Paging.Mapped
  rw [hword]
  exact h.present

end PageMemory

/-- `is_mapped` of a region that comes to a page that is mapped. -/
theorem Paging.isMapped_reaches {p : Paging} {a n toCheck : ℕ} (hbase : a + n < Pool.frameCount)
    (hlt : toCheck < 2 ^ 32) (hn : n * 4096 < toCheck) (hp : p.Present ((a + n) / 1024))
    (hm : p.Mapped ((a + n) / 1024) ((a + n) % 1024)) : p.isMapped (a * 4096) toCheck = some true := by
  have hstart : a * 4096 < 2 ^ 32 := page_lt ((Nat.le_add_right a n).trans_lt hbase)
  have hmask : a * 4096 &&& pageAlignMask = a * 4096 := by
    rw [pageAlignMask, and_mask hstart, Nat.mul_div_cancel _ (by decide)]
  have hself : sub32 (a * 4096) (a * 4096) = 0 := by
    rw [sub32_of_le le_rfl hstart, Nat.sub_self]
  obtain ⟨b, hb, rfl⟩ := sweep_stops p.checkPage (fun _ _ => True) (fun b => b = true) (page_lt hbase)
    (fun k _ b _ => by
      unfold checkPage
      split_ifs
      · exact ⟨_, rfl, rfl⟩
      · exact ⟨_, rfl, trivial⟩)
    (fun b _ => by
      unfold checkPage
      rw [pgdirEntry_page, pgtableEntry_page, if_pos ⟨hp, hm⟩]
      exact ⟨_, rfl, rfl, rfl⟩)
    n 0 (toCheck + 1) toCheck false (Nat.zero_add n) trivial hn hlt (by omega)
  unfold isMapped
  simp only [hmask, hself, add32_of_lt (show toCheck + 0 < 2 ^ 32 from hlt)]
  exact hb

namespace PageMemory

/-! ## The loop, into the window -/

section Loop

variable {S : Set ℕ} {a F n k : ℕ} {readOnly cacheEnabled hardware : Bool} {m : MapState}

/-- A page of the window but the last gets mapped: the directory is its table. -/
theorem mapPage_window (readOnly cacheEnabled hardware : Bool) (h : m.tables.memory.Recursive)
    (hk : 1023 * 1024 ≤ k) (hlt : k + 1 < 2 ^ 20) :
    ∃ m', mapPage readOnly cacheEnabled hardware m (k * kernelPageSize) = some (m', false)
      ∧ m'.tables.memory.Recursive ∧ m'.err = .noErr := by
  have hd : k / 1024 = 1023 := by omega
  have hi : k % 1024 < 1023 := by omega
  have hpres : m.tables.memory.dirWord 1023 &&& pageFlagPresent ≠ 0 := h.present
  unfold mapPage allocTable
  rw [pgdirEntry_page, pgtableEntry_page, hd, readDir_eq h (by decide), Option.bind_some, if_pos hpres,
    Option.bind_some]
  dsimp only
  rw [if_neg (by simp), writeTable_eq h (by decide) (by omega) hpres, Option.map_some]
  -- the last entry of the directory is not the one written
  have hlast : (m.tables.memory.setWord (m.tables.tableFrame 1023) (k % 1024)
      (Paging.pageEntry m.physAlign readOnly cacheEnabled hardware)).dirWord 1023
        = m.tables.memory.dirWord 1023 := Memory.setWord_of_ne fun _ => by omega
  refine ⟨_, rfl, ⟨?_, ?_⟩, rfl⟩
  · rw [hlast]
    exact h.present
  · rw [hlast]
    exact h.frame

open Paging (MapLoop MapStop TableFrames newTables)

/-- The loop of `kernel_mmap_internal` has mapped `k` pages, from `p₀` on. -/
structure Mapping (p₀ : Paging) (S : Set ℕ) (a F n : ℕ) (readOnly cacheEnabled hardware : Bool)
    (k : ℕ) (m : MapState) : Prop where
  err : m.err = .noErr
  recursive : m.tables.memory.Recursive
  frames : ∃ t, TableFrames S t (newTables p₀ (Set.Ico a (a + k)))
  below : a + k ≤ 1023 * 1024 → ∃ t, LoopSim m t
    ∧ MapLoop p₀ S a F n readOnly cacheEnabled hardware k t

/-- It has stopped for want of a frame. -/
def Stopped (p₀ : Paging) (S : Set ℕ) (a F n : ℕ) (readOnly cacheEnabled hardware : Bool)
    (r : PageMemory) : Prop :=
  ∃ q S', Sim S' r q ∧ MapStop p₀ S a F n readOnly cacheEnabled hardware q

theorem Mapping.step {p₀ : Paging} (hS : ∃ g < Pool.frameCount, g ∉ S)
    (hF : F + n ≤ Pool.frameCount) (hbase : a + n < Pool.frameCount) (hwin : p₀.Present 1023)
    (hk : k < n) (h : Mapping p₀ S a F n readOnly cacheEnabled hardware k m) :
    ∃ r, mapPage readOnly cacheEnabled hardware m ((a + k) * 4096) = some r
      ∧ if r.2 then r.1.err ≠ .noErr
            ∧ Stopped p₀ S a F n readOnly cacheEnabled hardware r.1.tables
        else Mapping p₀ S a F n readOnly cacheEnabled hardware (k + 1) r.1 := by
  simp only [Pool.frameCount] at hbase
  by_cases hlt : a + k < 1023 * 1024
  · obtain ⟨t, hsim, hloop⟩ := h.below hlt.le
    obtain ⟨r, hr, hcase⟩ := hloop.step hS hF hk
    obtain ⟨r', hr', hbrk, hsim'⟩ := hsim.mapPage hlt hr
    refine ⟨r', hr', ?_⟩
    rw [hbrk]
    obtain ⟨⟨S', hS'⟩, hphys, herr⟩ := hsim'
    split_ifs at hcase ⊢
    · exact ⟨herr ▸ hcase.1, r.1.paging, S', hS', hcase.2⟩
    · obtain ⟨t, ht⟩ := hcase.inv
      exact ⟨herr.trans hcase.err, hS'.recursive, ⟨t, ht.tables⟩, fun _ =>
        ⟨r.1, ⟨⟨S', hS'⟩, hphys, herr⟩, hcase⟩⟩
  · obtain ⟨m', hm', hrec, herr⟩ := mapPage_window readOnly cacheEnabled hardware h.recursive
      (Nat.not_lt.1 hlt) (by omega)
    refine ⟨(m', false), hm', herr, hrec, ?_, fun hle => by omega⟩
    have hd : (a + k) / 1024 = 1023 := by omega
    rw [Paging.Ico_succ_right, Paging.newTables_insert_of_present (by rwa [hd])]
    exact h.frames

variable {s : PageMemory} {virt size phys toMap : ℕ}

variable (readOnly exec cacheEnabled hardware : Bool) in
/-- `kernel_mmap_internal` of a region that does not come to the last page. -/
theorem Sim.mapRegion (h : Sim S s s.paging) (R : Region virt size a n toMap)
    (hbase : a + n < Pool.frameCount) (hF : F + n ≤ Pool.frameCount)
    (hphys : 0 < n → phys &&& pageAlignMask = F * 4096) :
    ∃ r err, s.kernelMmapInternal virt phys size readOnly exec cacheEnabled hardware = some (r, err)
      ∧ ((err = .mappingAlreadyExists ∧ r = s ∧ ¬ s.paging.Unmapped a n)
        ∨ (s.paging.Unmapped a n ∧ err = .pool .noErr
          ∧ ∃ t, TableFrames S t (newTables s.paging (Set.Ico a (a + n))))
        ∨ (s.paging.Unmapped a n ∧ err ≠ .pool .noErr
          ∧ Stopped s.paging S a F n readOnly cacheEnabled hardware r)) := by
  unfold PageMemory.kernelMmapInternal
  simp only [R.start, R.bytes]
  rw [isMapped_eq h.recursive]
  obtain ⟨b, hb, hun⟩ := Paging.isMapped_spec (p := s.paging) hbase R.lower R.upper
  rw [hb, Option.bind_some]
  cases b with
  | true => exact ⟨s, _, rfl, .inl ⟨rfl, rfl, fun hu => by simpa using hun.2 hu⟩⟩
  | false =>
    have hstart : Mapping s.paging S a F n readOnly cacheEnabled hardware 0
        ⟨s, phys &&& pageAlignMask, .noErr⟩ := by
      have hinv : Paging.MapInv Pool.Linked s.paging S
          (Paging.wordOf a F readOnly cacheEnabled hardware) (fun _ => 0) (Set.Ico a (a + 0))
          (Set.Ico a (a + 0)) s.paging := Paging.MapInv.start h.linked
      refine ⟨rfl, h.recursive, ⟨_, hinv.tables⟩, fun _ => ?_⟩
      exact ⟨⟨s.paging, phys &&& pageAlignMask, .noErr⟩, ⟨⟨S, h⟩, rfl, rfl⟩, rfl, fun hn => hphys hn,
        _, hinv⟩
    obtain ⟨m, hm, hinv⟩ := sweep_pages (PageMemory.mapPage readOnly cacheEnabled hardware)
      (Mapping s.paging S a F n readOnly cacheEnabled hardware)
      (fun m => m.err ≠ .noErr ∧ Stopped s.paging S a F n readOnly cacheEnabled hardware m.tables)
      (by decide) (Paging.page_lt hbase)
      (fun k hk m hm => hm.step h.missing hF hbase (last_page h.recursive).1 hk) R.lower R.upper hstart
    simp only [Bool.false_eq_true, if_false]
    rw [hm, Option.map_some]
    refine ⟨_, _, rfl, .inr ?_⟩
    rcases hinv with hinv | ⟨herr, hstop⟩
    · exact .inl ⟨hun.1 rfl, by rw [hinv.err], hinv.frames⟩
    · exact .inr ⟨hun.1 rfl, fun he => herr (PagingErr.pool.inj he), hstop⟩

variable (readOnly exec cacheEnabled hardware : Bool) (phys : ℕ) in
/-- `kernel_mmap_internal` of a region that comes to the last page. -/
theorem Region.refused (R : Region virt size a n toMap) (h : s.memory.Recursive)
    (hreach : Pool.frameCount ≤ a + n) :
    s.kernelMmapInternal virt phys size readOnly exec cacheEnabled hardware
      = some (s, .mappingAlreadyExists) := by
  simp only [Pool.frameCount] at hreach
  have ha := R.words.1
  obtain ⟨k, hlast⟩ : ∃ k, a + k = 1048575 := ⟨1048575 - a, by omega⟩
  have hk : k * 4096 < toMap := by
    have hle : (k + 1) * 4096 ≤ n * 4096 := Nat.mul_le_mul_right 4096 (by omega)
    rw [Nat.succ_mul] at hle
    exact Nat.lt_of_add_lt_add_right (hle.trans_lt R.upper)
  obtain ⟨hp, hm⟩ := last_page h
  have hmapped : s.paging.isMapped (a * 4096) toMap = some true := by
    refine Paging.isMapped_reaches ?_ R.words.2 hk ?_ ?_
    · rw [hlast]
      decide
    · rw [hlast]
      exact hp
    · rw [hlast]
      exact hm
  unfold PageMemory.kernelMmapInternal
  simp only [R.start, R.bytes]
  rw [isMapped_eq h, hmapped]
  rfl

end Loop

end PageMemory

/-! ## How many tables -/

namespace Paging

variable {p₀ q : Paging} {S D : Set ℕ} {t : ℕ → ℕ} {a F n : ℕ} {readOnly cacheEnabled hardware : Bool}

theorem newTables_finite (p₀ : Paging) (a n : ℕ) : (newTables p₀ (Set.Ico a (a + n))).Finite :=
  ((Set.finite_Ico a (a + n)).image (· / 1024)).subset fun _ hd => hd.2

/-- There are no more tables than frames for them. -/
theorem TableFrames.ncard_le (h : TableFrames S t D) (hS : S.Finite) : D.ncard ≤ S.ncard :=
  Set.ncard_le_ncard_of_injOn t h.mem h.inj hS

/-- When a frame is wanting there are not enough for the tables. -/
theorem MapStop.ncard_lt (h : MapStop p₀ S a F n readOnly cacheEnabled hardware q) :
    S.ncard < (newTables p₀ (Set.Ico a (a + n))).ncard := by
  obtain ⟨k, hk, t, hinv, hno⟩ := h
  have hsub : S ⊆ t '' newTables p₀ (Set.Ico a (a + k)) := Set.sdiff_eq_empty.1 hno.left
  have hfin := newTables_finite p₀ a k
  have hle : S.ncard ≤ (newTables p₀ (Set.Ico a (a + k))).ncard :=
    (Set.ncard_le_ncard hsub (hfin.image t)).trans (Set.ncard_image_le hfin)
  -- the table that is wanting is one more
  have hmore : insert ((a + k) / 1024) (newTables p₀ (Set.Ico a (a + k)))
      ⊆ newTables p₀ (Set.Ico a (a + n)) := by
    refine Set.insert_subset ⟨hno.absent, a + k, ⟨by omega, by omega⟩, rfl⟩ ?_
    rintro d ⟨hd, j, hj, rfl⟩
    exact ⟨hd, j, ⟨hj.1, hj.2.trans_le (by omega)⟩, rfl⟩
  have := Set.ncard_le_ncard hmore (newTables_finite p₀ a n)
  rw [Set.ncard_insert_of_notMem hno.needed hfin] at this
  omega

end Paging

namespace PageMemory

variable {s r : PageMemory} {S : Set ℕ} {a F n : ℕ} {readOnly cacheEnabled hardware : Bool}

theorem SameTables.setPool (s : PageMemory) (P : Pool) : SameTables s (s.setPool P) :=
  ⟨fun _ _ => rfl, fun _ _ _ _ _ => rfl⟩

/-- Related states, and tables as they were. -/
theorem SameTables.of_restored {S' : Set ℕ} {q : Paging} (h : s.memory.Recursive) (hr : Sim S' r q)
    (hdir : ∀ d, q.pgdir d = s.paging.pgdir d)
    (htab : ∀ d, s.paging.Present d → ∀ i < kernelPgdirSize, q.pgtable d i = s.paging.pgtable d i) :
    SameTables s r := by
  have hd : ∀ d < kernelPgdirSize, r.memory.dirWord d = s.memory.dirWord d := fun d hd =>
    (hr.dir d hd).trans (hdir d)
  have hf : ∀ d < kernelPgdirSize, r.tableFrame d = s.tableFrame d := fun d hd' =>
    congrArg entryFrame (hd d hd')
  refine ⟨hd, fun d hlt hp i hi => ?_⟩
  by_cases hlast : d = 1023
  · subst hlast
    have h1 : s.tableFrame 1023 = r.memory.cr3 := (hf 1023 hlt).symm.trans hr.recursive.frame
    have h2 : s.tableFrame 1023 = s.memory.cr3 := h.frame
    calc r.memory.word (s.tableFrame 1023) i = r.memory.dirWord i := by rw [h1]; rfl
      _ = s.memory.dirWord i := hd i hi
      _ = s.memory.word (s.tableFrame 1023) i := by rw [h2]; rfl
  · have hq : q.Present d := by
      unfold Paging.Present
      rw [hdir]
      exact hp
    rw [← hf d hlt, hr.table d (by simp only [kernelPgdirSize] at hlt; omega) hq i hi, htab d hp i hi,
      hf d hlt]
    rfl

/-- A page that is mapped now and was not is a change. -/
theorem not_sameTables {S' W : Set ℕ} {q : Paging} {e t : ℕ → ℕ} {j : ℕ} (hr : Sim S' r q)
    (hinv : Paging.MapInv Pool.Linked s.paging S e t W W q) (hj : j ∈ W) (hlt : j / 1024 < 1023)
    (he : e j &&& pageFlagPresent ≠ 0)
    (hun : s.Present (j / 1024) → ¬ s.paging.Mapped (j / 1024) (j % 1024)) : ¬ SameTables s r := by
  intro hsame
  have hd : j / 1024 < kernelPgdirSize := by
    simp only [kernelPgdirSize]
    omega
  have hdir := hsame.dir _ hd
  by_cases hp : s.Present (j / 1024)
  · have hframe : r.tableFrame (j / 1024) = s.tableFrame (j / 1024) := congrArg entryFrame hdir
    have hq : q.Present (j / 1024) := by
      unfold Paging.Present
      rw [← hr.dir _ hd, hdir]
      exact hp
    have hword := hsame.tables _ hd hp (j % 1024) (Nat.mod_lt _ (by decide))
    rw [← hframe, hr.table _ hlt hq _ (Nat.mod_lt _ (by decide)), hinv.layout.page j hj,
      hframe] at hword
    rw [hword] at he
    exact hun hp he
  · have hnew : j / 1024 ∈ Paging.newTables s.paging W := ⟨hp, j, hj, rfl⟩
    have hq := hinv.layout.present_new hnew (hinv.tables.holdsFrame hnew)
    unfold Paging.Present at hq
    rw [← hr.dir _ hd, hdir] at hq
    exact hp hq

/-- There were fewer frames than tables to make, for a page at least. -/
theorem Stopped.wants {p₀ : Paging} (h : Stopped p₀ S a F n readOnly cacheEnabled hardware r) :
    S.ncard < (Paging.newTables p₀ (Set.Ico a (a + n))).ncard ∧ 0 < n := by
  obtain ⟨q, -, -, hstop⟩ := h
  refine ⟨hstop.ncard_lt, ?_⟩
  obtain ⟨k, hk, -⟩ := hstop
  exact Nat.zero_lt_of_lt hk

/-- The loop stopped at the first page, and nothing has changed, or later, and something has. -/
theorem Stopped.cases (h : Stopped s.paging S a F n readOnly cacheEnabled hardware r)
    (hrec : s.memory.Recursive) (hbase : a + n < Pool.frameCount) (hun : s.paging.Unmapped a n) :
    (∃ S' ⊆ S, r.pool.Linked S')
      ∧ ((¬ s.Present (a / 1024) ∧ S = ∅ ∧ SameTables s r)
        ∨ ((s.Present (a / 1024) ∨ S ≠ ∅) ∧ ¬ SameTables s r)) := by
  obtain ⟨q, S', hsim, k, hk, t, hinv, hno⟩ := h
  have hpool : r.pool.Linked (S \ t '' Paging.newTables s.paging (Set.Ico a (a + k))) :=
    hsim.pool ▸ hinv.pool
  refine ⟨⟨_, Set.sdiff_subset, hpool⟩, ?_⟩
  rcases Nat.eq_zero_or_pos k with rfl | hpos
  · have hempty : Set.Ico a (a + 0) = ∅ := Set.Ico_self a
    have hleft := hno.left
    have hlayout := hinv.layout
    rw [hempty, Paging.newTables_empty] at hleft hlayout
    rw [Set.image_empty, Set.sdiff_empty] at hleft
    obtain ⟨hdir, htab⟩ := hlayout.restored
    exact .inl ⟨hno.absent, hleft, .of_restored hrec hsim hdir htab⟩
  · have hmem : a ∈ Set.Ico a (a + k) := ⟨le_rfl, by omega⟩
    -- the table that is wanting is not the directory, so the first page is below the window
    have hlt : a / 1024 < 1023 := by
      have hne : (a + k) / 1024 ≠ 1023 := fun hd => hno.absent (hd ▸ hrec.present)
      simp only [Pool.frameCount] at hbase
      omega
    refine .inr ⟨?_, not_sameTables hsim hinv hmem hlt (Paging.pageEntry_present _ _ _)
      (hun a ⟨le_rfl, by omega⟩)⟩
    by_cases hp : s.Present (a / 1024)
    · exact .inl hp
    · refine .inr fun hS => ?_
      have := hinv.tables.mem (a / 1024) ⟨hp, a, hmem, rfl⟩
      rw [hS] at this
      exact this

/-! ## Whole calls -/

section Call

variable {virt size : ℕ} {S₀ : Set ℕ} {P : Pool}

theorem freeFrames_eq (h : s.pool.Chained S) : s.freeFrames = S :=
  Set.ext fun _ => (h.areas.mem_iff (by decide)).symm

theorem freeCount_eq (h : s.pool.Chained S) : s.freeCount = S.ncard :=
  (h.areas.ncard_eq (by decide)).symm

/-- Frames taken from the pool are in no table. -/
theorem Sim.setPool {S' : Set ℕ} (h : Sim S s s.paging) (hsub : S' ⊆ S) (hP : P.Linked S') :
    Sim S' (s.setPool P) (s.setPool P).paging := by
  obtain ⟨g, hg, hgS⟩ := h.missing
  exact ⟨h.recursive, h.dir, h.table, h.own, fun d hd hp hm => h.taken d hd hp (hsub hm), rfl, hP,
    g, hg, fun hx => hgS (hsub hx)⟩

theorem regionPage_eq {k : ℕ} (h : virt / 4096 + k < 2 ^ 20) :
    regionPage virt k = virt / 4096 + k := Nat.mod_eq_of_lt h

theorem walk_page (s : PageMemory) (j : ℕ) :
    (s.memory.walk (j * kernelPageSize)).isSome
      ↔ s.Present (j / 1024) ∧ s.paging.Mapped (j / 1024) (j % 1024) := by
  rw [walk_eq, Nat.mul_div_cancel _ (by decide), Paging.pageAt_isSome]
  rfl

theorem hasPage_iff (hbase : virt / 4096 + regionCount virt size < Pool.frameCount) :
    s.HasPage virt size ↔ ¬ s.paging.Unmapped (virt / 4096) (regionCount virt size) := by
  simp only [Pool.frameCount] at hbase
  unfold HasPage Paging.Unmapped
  push Not
  constructor
  · rintro ⟨k, hk, hw⟩
    rw [regionPage_eq (by omega), walk_page] at hw
    exact ⟨_, ⟨by omega, by omega⟩, hw⟩
  · rintro ⟨j, hj, hw⟩
    have h1 := hj.1
    have h2 := hj.2
    refine ⟨j - virt / 4096, by omega, ?_⟩
    rw [regionPage_eq (by omega), Nat.add_sub_cancel' h1, walk_page]
    exact hw

theorem hasPage_of_reaches (h : s.memory.Recursive) (ha : virt / 4096 < 2 ^ 20)
    (hreach : Pool.frameCount ≤ virt / 4096 + regionCount virt size) : s.HasPage virt size := by
  simp only [Pool.frameCount] at hreach
  obtain ⟨k, hlast⟩ : ∃ k, virt / 4096 + k = 1048575 := ⟨1048575 - virt / 4096, by omega⟩
  refine ⟨k, by omega, ?_⟩
  rw [regionPage_eq (by omega), hlast, walk_page]
  exact last_page h

theorem missingTables_eq (hbase : virt / 4096 + regionCount virt size < Pool.frameCount) :
    (s.missingTables virt size : Set ℕ) = Paging.newTables s.paging
      (Set.Ico (virt / 4096) (virt / 4096 + regionCount virt size)) := by
  simp only [Pool.frameCount] at hbase
  ext d
  simp only [missingTables, Finset.coe_filter, Finset.mem_range, Set.mem_ofPred_eq, Paging.newTables,
    kernelPgdirSize]
  constructor
  · rintro ⟨-, hp, k, hk, hd⟩
    rw [regionPage_eq (by omega)] at hd
    exact ⟨hp, _, ⟨by omega, by omega⟩, hd⟩
  · rintro ⟨hp, j, hj, rfl⟩
    have h1 := hj.1
    have h2 := hj.2
    refine ⟨by omega, hp, j - virt / 4096, by omega, ?_⟩
    rw [regionPage_eq (by omega), Nat.add_sub_cancel' h1]

/-- With a block taken from the pool for the pages of a region, which are not mapped, a table is
wanting if fewer frames are left than tables are missing, and then it is not that of the first page
if this has a table or a frame is left. -/
theorem runsOut_iff (h : s.pool.Linked S₀)
    (hbase : virt / 4096 + regionCount virt size < Pool.frameCount)
    (hmem : Set.Ico F (F + regionCount virt size) ⊆ S₀)
    (hfit : ∃ a ∈ s.pool.areaList.map s.pool.area, regionCount virt size * kernelPageSize ≤ a.size)
    (hun : s.paging.Unmapped (virt / 4096) (regionCount virt size)) :
    s.RunsOut virt size ↔
      (S₀ \ Set.Ico F (F + regionCount virt size)).ncard < (Paging.newTables s.paging
          (Set.Ico (virt / 4096) (virt / 4096 + regionCount virt size))).ncard
        ∧ (s.Present (virt / 4096 / 1024) ∨ S₀ \ Set.Ico F (F + regionCount virt size) ≠ ∅) := by
  have hfin : S₀.Finite := h.chained.areas.finite
  have hfree : s.freeCount = (S₀ \ Set.Ico F (F + regionCount virt size)).ncard
      + regionCount virt size := by
    have hblk : (Set.Ico F (F + regionCount virt size)).ncard = regionCount virt size :=
      Area.ncard_bytes ⟨F, regionCount virt size⟩
    rw [freeCount_eq h.chained, ← Set.ncard_sdiff_add_ncard_of_subset hmem hfin, hblk]
  have hmiss : (s.missingTables virt size).card = (Paging.newTables s.paging
      (Set.Ico (virt / 4096) (virt / 4096 + regionCount virt size))).ncard := by
    rw [← missingTables_eq hbase, Set.ncard_coe_finset]
  have hfirst : regionPage virt 0 / kernelPgdirSize = virt / 4096 / 1024 := by
    rw [regionPage_eq (by simp only [Pool.frameCount] at hbase; omega)]
    rfl
  have hleft : S₀ \ Set.Ico F (F + regionCount virt size) ≠ ∅
      ↔ 0 < (S₀ \ Set.Ico F (F + regionCount virt size)).ncard := by
    rw [Set.ncard_pos (hfin.subset Set.sdiff_subset), Set.nonempty_iff_ne_empty]
  have hpage : ¬ s.HasPage virt size := fun hhas => (hasPage_iff hbase).1 hhas hun
  unfold RunsOut
  rw [hfirst, hleft, hmiss, hfree, Nat.add_comm, Nat.add_lt_add_iff_left, Nat.lt_add_right_iff_pos]
  exact ⟨fun hrun => hrun.2.2, fun hrun => ⟨hfit, hpage, hrun⟩⟩

variable {kmalloc : ℕ → Pool → ℕ}

/-- `kernel_mmap` that has a block of frames. -/
theorem kernelMmap_eq {frames pageCount : ℕ} {readOnly exec : Bool} {err : PagingErr}
    (hcount : sub32 (endMap virt size) (virt &&& pageAlignMask) / kernelPageSize = pageCount)
    (hblock : s.pool.getBlock pageCount = some (P, frames, .noErr))
    (hmap : (s.setPool P).kernelMmapInternal virt frames size readOnly exec true false
      = some (r, err)) :
    kernelMmap kmalloc s virt size readOnly exec
      = if err ≠ .pool .noErr then (freeKframes kmalloc r frames pageCount).map fun s => (s, err)
        else some (r, err) := by
  unfold kernelMmap
  simp only [hcount]
  rw [hblock, Option.bind_some]
  simp only [ne_eq, not_true_eq_false, if_false]
  rw [hmap, Option.bind_some]

variable (hk : ∀ addr P, kmalloc addr P ≠ 0 ∧ kmalloc addr P ∉ P.alive)

include hk

/-- A block of frames given back to what is left of the pool. -/
theorem freeKframes_block {S' : Set ℕ} (hg : ∃ g < Pool.frameCount, g ∉ S₀)
    (hF : F + n ≤ Pool.frameCount) (hmem : Set.Ico F (F + n) ⊆ S₀) (hn : 0 < n)
    (hsub : S' ⊆ S₀ \ Set.Ico F (F + n)) (h : r.pool.Linked S') :
    ∃ P, freeKframes kmalloc r (F * kernelPageSize) n = some (r.setPool P)
      ∧ P.Chained (S' ∪ Set.Ico F (F + n)) := by
  obtain ⟨g, hg, hgS⟩ := hg
  have hdisj : Disjoint (Set.Ico F (F + n)) S' :=
    Set.disjoint_left.2 fun x hx hx' => (hsub hx').2 hx
  obtain ⟨h0, hfresh⟩ := hk (F * kernelPageSize) r.pool
  obtain ⟨P, h1, h2⟩ := h.chained.addFree hg (fun hx => hgS (hsub hx).1) hn hF hdisj
    (fun hx => hgS (hmem hx)) h0 hfresh
  refine ⟨P, ?_, h2⟩
  have hlt : n < Pool.frameCount := by
    by_contra hge
    exact hgS (hmem ⟨by omega, by omega⟩)
  have hmul : n * kernelPageSize < 2 ^ 32 := Paging.page_lt hlt
  unfold freeKframes
  rw [mul32_of_lt hmul, h1]
  rfl

/-- All of the block is back, and the tables were not touched. -/
theorem freeKframes_unchanged (h₀ : s.pool.Linked S₀) (hg : ∃ g < Pool.frameCount, g ∉ S₀)
    (hF : F + n ≤ Pool.frameCount) (hmem : Set.Ico F (F + n) ⊆ S₀) (hn : 0 < n)
    (h : r.pool.Linked (S₀ \ Set.Ico F (F + n))) (hsame : SameTables s r) :
    ∃ r', freeKframes kmalloc r (F * kernelPageSize) n = some r' ∧ Unchanged s r' := by
  obtain ⟨P, h1, h2⟩ := freeKframes_block hk hg hF hmem hn subset_rfl h
  rw [Set.sdiff_union_of_subset hmem] at h2
  refine ⟨_, h1, ⟨hsame.dir, hsame.tables⟩, ?_⟩
  rw [freeFrames_eq h₀.chained, freeFrames_eq (s := r.setPool P) h2]

variable {toMap : ℕ} (readOnly exec : Bool)

/-- A region that comes to the last page is refused, and nothing changes. -/
theorem Region.unchanged (R : Region virt size a n toMap) (h : Sim S₀ s s.paging)
    (hreach : Pool.frameCount ≤ a + n) (hF : F + n % 2 ^ 20 ≤ Pool.frameCount)
    (hmem : Set.Ico F (F + n % 2 ^ 20) ⊆ S₀) (hP : P.Linked (S₀ \ Set.Ico F (F + n % 2 ^ 20)))
    (hblock : s.pool.getBlock (n % 2 ^ 20) = some (P, F * kernelPageSize, .noErr)) :
    ∃ r, kernelMmap kmalloc s virt size readOnly exec = some (r, .mappingAlreadyExists)
      ∧ Unchanged s r := by
  have hrec : (s.setPool P).memory.Recursive := h.recursive
  have hcount : sub32 (endMap virt size) (virt &&& pageAlignMask) / kernelPageSize = n % 2 ^ 20 := by
    rw [R.start]
    exact R.count
  have hcode : kernelMmap kmalloc s virt size readOnly exec = _ := kernelMmap_eq hcount hblock
    (R.refused readOnly exec true false (F * kernelPageSize) hrec hreach)
  rw [hcode, if_pos (by simp)]
  rcases Nat.eq_zero_or_pos (n % 2 ^ 20) with hzero | hpos
  · -- the region is all the address space, and its count of pages is 0
    rw [hzero] at hblock ⊢
    obtain ⟨g, hg, hgS⟩ := h.missing
    obtain ⟨h0, hfresh⟩ := hk (F * kernelPageSize) P
    obtain ⟨Q, err, hadd, hcov⟩ := h.linked.giveNothing hg hgS hblock h0 hfresh
    have hfree : freeKframes kmalloc (s.setPool P) (F * kernelPageSize) 0 = some (s.setPool Q) := by
      have hmul : mul32 0 kernelPageSize = 0 := mul32_of_lt (by decide)
      unfold freeKframes
      rw [hmul]
      exact congrArg (Option.map _) hadd
    rw [hfree]
    refine ⟨s.setPool Q, rfl, .setPool s Q, ?_⟩
    unfold freeFrames
    rw [← hcov]
    rfl
  · obtain ⟨r, hr, hun⟩ := freeKframes_unchanged (r := s.setPool P) hk h.linked h.missing hF hmem hpos
      hP (.setPool s P)
    exact ⟨r, by rw [hr]; rfl, hun⟩

/-- A region that does not. -/
theorem Region.atomic_iff (R : Region virt size (virt / 4096) (regionCount virt size) toMap)
    (h : Sim S₀ s s.paging) (hbase : virt / 4096 + regionCount virt size < Pool.frameCount)
    (hF : F + regionCount virt size ≤ Pool.frameCount)
    (hmem : Set.Ico F (F + regionCount virt size) ⊆ S₀)
    (hP : P.Linked (S₀ \ Set.Ico F (F + regionCount virt size)))
    (hfit : ∃ a ∈ s.pool.areaList.map s.pool.area, regionCount virt size * kernelPageSize ≤ a.size)
    (hblock : s.pool.getBlock (regionCount virt size) = some (P, F * kernelPageSize, .noErr)) :
    ∃ r err, kernelMmap kmalloc s virt size readOnly exec = some (r, err)
      ∧ ((err ≠ .pool .noErr → Unchanged s r) ↔ ¬ s.RunsOut virt size) := by
  have hcount : sub32 (endMap virt size) (virt &&& pageAlignMask) / kernelPageSize
      = regionCount virt size := by
    rw [R.start]
    exact R.count.trans (Nat.mod_eq_of_lt (by simp only [Pool.frameCount] at hbase; omega))
  have hsim := h.setPool Set.sdiff_subset hP
  have hphys : 0 < regionCount virt size → F * kernelPageSize &&& pageAlignMask = F * 4096 := by
    intro hpos
    rw [pageAlignMask, and_mask (Paging.page_lt (by omega)), Nat.mul_div_cancel _ (by decide)]
  obtain ⟨r, err, hr, hcase⟩ := hsim.mapRegion readOnly exec true false R hbase hF hphys
  have hcode : kernelMmap kmalloc s virt size readOnly exec = _ := kernelMmap_eq hcount hblock hr
  rcases hcase with ⟨rfl, rfl, hun⟩ | ⟨hun, rfl, t, ht⟩ | ⟨hun, herr, hstop⟩
  · -- a page is mapped already
    have hpos : 0 < regionCount virt size := by
      by_contra h0
      exact hun fun j hj => absurd hj.2 (by have := hj.1; omega)
    obtain ⟨r, hr, hsame⟩ := freeKframes_unchanged (r := s.setPool P) hk h.linked h.missing hF hmem hpos
      hP (.setPool s P)
    refine ⟨r, .mappingAlreadyExists, ?_,
      iff_of_true (fun _ => hsame) fun hrun => hrun.2.1 ((hasPage_iff hbase).2 hun)⟩
    rw [hcode, if_pos (by simp), hr]
    rfl
  · -- all the pages are mapped, so there was a frame for each table
    refine ⟨r, .pool .noErr, ?_, iff_of_true (fun hne => absurd rfl hne) fun hrun => ?_⟩
    · rw [hcode, if_neg (by simp)]
    · rw [runsOut_iff h.linked hbase hmem hfit hun] at hrun
      exact absurd (ht.ncard_le hP.chained.areas.finite) (Nat.not_le.2 hrun.1)
  · -- a frame was wanting for a table
    obtain ⟨hlt, hpos⟩ := hstop.wants
    obtain ⟨⟨S', hsub, hpool⟩, hcases⟩ := hstop.cases h.recursive hbase hun
    obtain ⟨Q, hQ, hchain⟩ := freeKframes_block hk h.missing hF hmem hpos hsub hpool
    refine ⟨r.setPool Q, err, ?_, ?_⟩
    · rw [hcode, if_pos herr, hQ]
      rfl
    rw [runsOut_iff h.linked hbase hmem hfit hun]
    rcases hcases with ⟨habs, hempty, hsame⟩ | ⟨hpres, hne⟩
    · refine iff_of_true (fun _ => ⟨⟨hsame.dir, hsame.tables⟩, ?_⟩) fun hrun => ?_
      · rw [hempty] at hsub
        rw [Set.subset_empty_iff.1 hsub, ← hempty, Set.sdiff_union_of_subset hmem] at hchain
        rw [freeFrames_eq h.linked.chained, freeFrames_eq (s := r.setPool Q) hchain]
      · rcases hrun.2 with hp | hleft
        · exact habs hp
        · exact hleft hempty
    · refine iff_of_false (fun himp => ?_) (not_not.2 ⟨hlt, hpres⟩)
      have hun' := himp herr
      exact hne ⟨hun'.dir, hun'.tables⟩

/-- A `kernel_mmap` that fails leaves the directory, the tables and the free frames as they were,
exactly when it does not run out of frames for the tables after the first page. -/
theorem kernel_mmap_atomic_iff (s : PageMemory) (h : s.PageTables) (virt size : ℕ)
    (hv : virt < 2 ^ 32) :
    ∃ r err, kernelMmap kmalloc s virt size readOnly exec = some (r, err)
      ∧ ((err ≠ .pool .noErr → Unchanged s r) ↔ ¬ s.RunsOut virt size) := by
  obtain ⟨S₀, hS₀⟩ := h.sim
  obtain ⟨toMap, R⟩ := region size hv
  obtain ⟨g, hg, hgS⟩ := hS₀.missing
  have hcount : sub32 (endMap virt size) (virt &&& pageAlignMask) / kernelPageSize
      = regionCount virt size % 2 ^ 20 := by
    rw [R.start]
    exact R.count
  rcases hS₀.linked.getBlock hg hgS (Nat.mod_lt (regionCount virt size) (by decide : 0 < 2 ^ 20)) with
    ⟨hb, hsmall⟩ | ⟨P, F, hb, hF, hmem, hP, hfit⟩
  · -- no block of frames
    refine ⟨s, .pool .noMoreFreeMem, ?_, iff_of_true (fun _ => ⟨.setPool s s.pool, rfl⟩) fun hrun => ?_⟩
    · unfold kernelMmap
      simp only [hcount]
      rw [hb]
      rfl
    · obtain ⟨⟨a, ha, hle⟩, -⟩ := hrun
      have hlt := hsmall a ha
      have hmod : regionCount virt size % 2 ^ 20 * kernelPageSize
          ≤ regionCount virt size * kernelPageSize :=
        Nat.mul_le_mul_right _ (Nat.mod_le _ _)
      exact absurd (hle.trans_lt hlt) (Nat.not_lt.2 hmod)
  by_cases hbase : virt / 4096 + regionCount virt size < Pool.frameCount
  · have hn : regionCount virt size % 2 ^ 20 = regionCount virt size :=
      Nat.mod_eq_of_lt (by simp only [Pool.frameCount] at hbase; omega)
    rw [hn] at hb hF hmem hP hfit
    exact R.atomic_iff hk readOnly exec hS₀ hbase hF (fun i hi => hmem i hi.1 hi.2) hP hfit hb
  · obtain ⟨r, hr, hun⟩ := R.unchanged hk readOnly exec hS₀ (Nat.not_lt.1 hbase) hF
      (fun i hi => hmem i hi.1 hi.2) hP hb
    exact ⟨r, _, hr, iff_of_true (fun _ => hun) fun hrun =>
      hrun.2.1 (hasPage_of_reaches h.recursive R.words.1 (Nat.not_lt.1 hbase))⟩

end Call

/-- A page that is mapped already: nothing changes. -/
theorem kernel_mmap_atomic_mapped : ∃ r,
    kernelMmap Paging.nextNode (firstTable 0x2000) 0 0x1000 false false
        = some (r, .mappingAlreadyExists)
      ∧ Unchanged (firstTable 0x2000) r := by
  have hcode : (kernelMmap Paging.nextNode (firstTable 0x2000) 0 0x1000 false false).map Prod.snd
      = some .mappingAlreadyExists := by decide +kernel
  obtain ⟨r, err, hr, hiff⟩ := kernel_mmap_atomic_iff Paging.nextNode_fresh false false
    (firstTable 0x2000) (firstTable_pageTables (by decide) (by decide) (by decide)) 0 0x1000 (by decide)
  rw [hr] at hcode
  obtain rfl : err = .mappingAlreadyExists := Option.some.inj hcode
  refine ⟨r, hr, hiff.2 (fun hrun => hrun.2.1 ⟨0, by decide +kernel, by decide +kernel⟩) (by simp)⟩

/-- Two pages with two free frames, the second page in a table that there is none for: the entry of
the first is left, and its frame is free. -/
theorem kernel_mmap_not_atomic : (firstTable 0x2000).PageTables ∧ ∃ r,
    kernelMmap Paging.nextNode (firstTable 0x2000) 0x3FF000 0x2000 false false
        = some (r, .pool .noMoreFreeMem)
      ∧ r.memory.walk 0x3FF000 = some 0x100003 ∧ 0x100 ∈ r.freeFrames
      ∧ ¬ Unchanged (firstTable 0x2000) r := by
  refine ⟨firstTable_pageTables (by decide) (by decide) (by decide), ?_⟩
  have hcode : (kernelMmap Paging.nextNode (firstTable 0x2000) 0x3FF000 0x2000 false false).map
      (fun r => (r.2, r.1.memory.walk 0x3FF000, r.1.memory.word 5 0x3FF,
        r.1.pool.areaList.map r.1.pool.area))
      = some (.pool .noMoreFreeMem, some 0x100003, 0x100003, [⟨0x100000, 0x2000⟩]) := by
    decide +kernel
  obtain ⟨⟨r, err⟩, hr, hcode⟩ := Option.map_eq_some_iff.1 hcode
  simp only [Prod.mk.injEq] at hcode
  obtain ⟨rfl, hwalk, hword, hareas⟩ := hcode
  refine ⟨r, hr, hwalk, ?_, fun hun => ?_⟩
  · unfold freeFrames
    rw [hareas]
    exact ⟨_, List.mem_singleton_self _, by decide, by decide⟩
  · have h5 : (firstTable 0x2000).tableFrame 0 = 5 := by decide
    have hsame := hun.tables 0 (by decide) (by decide) 0x3FF (by decide)
    rw [h5, hword] at hsame
    exact absurd hsame (by decide)

end PageMemory

end RTLKIM

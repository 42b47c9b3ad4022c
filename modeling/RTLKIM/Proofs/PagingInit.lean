import RTLKIM.PagingInit
import RTLKIM.Proofs.PageMemory

/-!
# The first page tables map the kernel

`KernelPages` says what the directory and the tables of `min_pgtable` hold when some pages of the kernel
are mapped. One page more is one step, a section is its pages, and what is left in the end is the last
section of each page.
-/

namespace RTLKIM

open Memory

variable {F : KernelTables} {m : Memory} {f : ℕ → Option Bool}

/-- What `min_pgtable` has for a page at `q` pages from the first. -/
def tableWord (q : ℕ) : Option Bool → ℕ
  | none => 0
  | some readOnly => q * 4096 ||| (if readOnly then 0 else pageFlagReadWrite) ||| pageFlagPresent

/-- The word of the directory for a table. -/
def dirEntry (frame : ℕ) : ℕ := frame * kernelPageSize ||| pageFlagReadWrite ||| pageFlagPresent

/-- The pages that are mapped, read-only or not. -/
structure KernelPages (F : KernelTables) (f : ℕ → Option Bool) (m : Memory) : Prop where
  last : m.word F.kernelPgdir 1023 = dirEntry F.kernelPgdir
  dir : ∀ k < 4, m.word F.kernelPgdir (896 + k) = dirEntry (F.minPgtable + k)
    ∨ m.word F.kernelPgdir (896 + k) = 0 ∧ ∀ i < 1024, f (0xE0000 + (k * 1024 + i)) = none
  rest : ∀ d < 1023, d < 896 ∨ 900 ≤ d → m.word F.kernelPgdir d = 0
  page : ∀ k < 4, ∀ i < 1024, m.word (F.minPgtable + k) i
    = tableWord (k * 1024 + i) (f (0xE0000 + (k * 1024 + i)))

/-! ## A page -/

theorem mapKernelPage_eq (F : KernelTables) (readOnly : Bool) (m : Memory) {q : ℕ} (hq : q < 4096) :
    mapKernelPage F readOnly m ((0xE0000 + q) * 4096)
      = (m.setWord (F.minPgtable + q / 1024) (q % 1024) (tableWord q (some readOnly))).setWord F.kernelPgdir
        (896 + q / 1024) (dirEntry (F.minPgtable + q / 1024)) := by
  obtain ⟨hdir, htable⟩ := page_shift (0xE0000 + q)
  obtain ⟨hmin, -⟩ := page_shift q
  have hsub : sub32 ((0xE0000 + q) * 4096) kernelMemOffset = q * 4096 := by
    unfold kernelMemOffset
    rw [sub32_of_le (by omega) (by omega)]
    omega
  have hand : q / 1024 &&& 0x3FF = q / 1024 := by
    refine (Nat.and_two_pow_sub_one_eq_mod _ 10).trans (Nat.mod_eq_of_lt ?_)
    omega
  unfold mapKernelPage
  rw [hdir, htable, hsub, hmin, hand, show (0xE0000 + q) / 1024 = 896 + q / 1024 by omega,
    show (0xE0000 + q) % 1024 = q % 1024 by omega]
  rfl

/-- One page more. -/
theorem KernelPages.step (hF : F.Apart) (h : KernelPages F f m) (readOnly : Bool) {q : ℕ} (hq : q < 4096) :
    KernelPages F (Function.update f (0xE0000 + q) (some readOnly))
      (mapKernelPage F readOnly m ((0xE0000 + q) * 4096)) := by
  have hpgdir (k : ℕ) (hk : k < 4) : F.kernelPgdir ≠ F.minPgtable + k := by
    have := hF.apart
    unfold kernelReservedPaging at this
    omega
  have hk : q / 1024 < 4 := by omega
  have hdiv := Nat.div_add_mod' q 1024
  rw [mapKernelPage_eq F readOnly m hq]
  refine ⟨?_, fun k hk4 => ?_, fun d hd hout => ?_, fun k hk4 i hi => ?_⟩
  · rw [setWord_of_ne fun _ => by omega, setWord_of_frame_ne (hpgdir _ hk)]
    exact h.last
  · by_cases heq : k = q / 1024
    · rw [heq]
      exact .inl setWord_self
    · rw [setWord_of_ne fun _ => by omega, setWord_of_frame_ne (hpgdir _ hk)]
      refine (h.dir k hk4).imp_right fun hnone => ⟨hnone.1, fun i hi => ?_⟩
      rw [Function.update_of_ne (by omega)]
      exact hnone.2 i hi
  · rw [setWord_of_ne fun _ => by omega, setWord_of_frame_ne (hpgdir _ hk)]
    exact h.rest d hd hout
  · rw [setWord_of_frame_ne (hpgdir k hk4).symm]
    by_cases heq : k * 1024 + i = q
    · have hki : k = q / 1024 ∧ i = q % 1024 := by omega
      rw [heq, Function.update_self, hki.1, hki.2]
      exact setWord_self
    · rw [setWord_of_ne fun _ => by omega, Function.update_of_ne (by omega)]
      exact h.page k hk4 i hi

/-! ## A section and all of them -/

/-- The pages that a section adds. -/
def sectionPages (s : KernelSection) (f : ℕ → Option Bool) (n : ℕ) : Option Bool :=
  if s.Contains (n * 4096) then some s.readOnly else f n

theorem contains_page {s : KernelSection} {n : ℕ} :
    s.Contains (n * 4096) ↔ s.start / 4096 ≤ n ∧ n * 4096 < s.stop := by
  unfold KernelSection.Contains kernelPageSize
  rw [Nat.mul_div_cancel n (by decide)]

theorem KernelPages.mapKernelSection (hF : F.Apart) (h : KernelPages F f m) {s : KernelSection}
    (hstart : kernelMemOffset ≤ s.start) (hle : s.start ≤ s.stop)
    (hstop : s.stop ≤ kernelMemOffset + kernelReservedPaging * 2 ^ 22) :
    ∃ r, mapKernelSection F m s = some r ∧ KernelPages F (sectionPages s f) r := by
  unfold kernelMemOffset kernelReservedPaging at hstop
  unfold kernelMemOffset at hstart
  have hdiv := Nat.div_add_mod' s.start 4096
  have hmod := Nat.mod_lt s.start (show 0 < 4096 by decide)
  obtain ⟨c, hc1, hc2⟩ : ∃ c, s.start % 4096 + (s.stop - s.start) ≤ c * 4096
      ∧ c * 4096 < s.start % 4096 + (s.stop - s.start) + 4096 :=
    ⟨(s.start % 4096 + (s.stop - s.start) + 4095) / 4096, by omega, by omega⟩
  have htoMap : add32 (sub32 s.start (s.start / 4096 * 4096)) (sub32 s.stop s.start)
      = s.start % 4096 + (s.stop - s.start) := by
    rw [sub32_of_le (by omega) (by omega), sub32_of_le hle (by omega), add32_of_lt (by omega)]
    omega
  have hend : (s.start / 4096 + c) * 4096 < s.stop + 4096 := by
    calc (s.start / 4096 + c) * 4096 = s.start / 4096 * 4096 + c * 4096 := Nat.add_mul ..
      _ < s.start / 4096 * 4096 + (s.start % 4096 + (s.stop - s.start) + 4096) := Nat.add_lt_add_left hc2 _
      _ = s.stop + 4096 := by omega
  have hbase : (s.start / 4096 + c) * 4096 < 2 ^ 32 := hend.trans_le (by omega)
  obtain ⟨r, hr, hI | hfalse⟩ := sweep_pages
    (fun m addr => some (mapKernelPage F s.readOnly m addr, false))
    (fun k m => KernelPages F
      (fun n => if s.start / 4096 ≤ n ∧ n < s.start / 4096 + k then some s.readOnly else f n) m)
    (fun _ => False) (K := kernelPageSize) (a := s.start / 4096) (n := c) (by decide) hbase
    (fun k hk m hm => by
      refine ⟨_, rfl, ?_⟩
      obtain ⟨q, hq⟩ := Nat.exists_eq_add_of_le (show 0xE0000 ≤ s.start / 4096 + k by omega)
      have hstep := hm.step hF s.readOnly (show q < 4096 by omega)
      rw [← hq] at hstep
      rw [if_neg Bool.false_ne_true]
      convert hstep using 1
      funext n
      rw [Function.update_apply]
      split_ifs <;> first | rfl | omega)
    hc1 hc2 (s := m) (by
      convert h using 1
      funext n
      exact if_neg (by omega))
  · refine ⟨r, ?_, ?_⟩
    · unfold Memory.mapKernelSection
      rw [and_mask (by omega)]
      dsimp only
      rw [htoMap]
      exact hr
    · convert hI using 1
      funext n
      unfold sectionPages
      simp only [contains_page]
      split_ifs <;> first | rfl | omega
  · exact hfalse.elim

/-- The pages of some sections, in order. -/
def mappedPages (l : List KernelSection) (f : ℕ → Option Bool) : ℕ → Option Bool :=
  l.foldl (fun f s => sectionPages s f) f

theorem KernelPages.mapSections (hF : F.Apart) : ∀ {l : List KernelSection} {f : ℕ → Option Bool} {m : Memory},
    KernelPages F f m →
    (∀ s ∈ l, kernelMemOffset ≤ s.start ∧ s.start ≤ s.stop
      ∧ s.stop ≤ kernelMemOffset + kernelReservedPaging * 2 ^ 22) →
    ∃ r, l.foldlM (Memory.mapKernelSection F) m = some r ∧ KernelPages F (mappedPages l f) r
  | [], _, m, h, _ => ⟨m, rfl, h⟩
  | s :: l, _, _, h, hl => by
    obtain ⟨h1, h2, h3⟩ := hl s List.mem_cons_self
    obtain ⟨r, hr, hpages⟩ := h.mapKernelSection hF h1 h2 h3
    obtain ⟨t, ht, hall⟩ := mapSections hF hpages fun s' hs' => hl s' (List.mem_cons_of_mem _ hs')
    refine ⟨t, ?_, hall⟩
    rw [List.foldlM_cons, hr]
    exact ht

/-- The last section of a page has it. -/
theorem mappedPages_eq (n : ℕ) : ∀ (l : List KernelSection) (f : ℕ → Option Bool),
    mappedPages l f n = ((l.reverse.find? fun s => s.Contains (n * 4096)).map KernelSection.readOnly).or (f n)
  | [], _ => rfl
  | s :: l, f => by
    have ih := mappedPages_eq n l (sectionPages s f)
    change mappedPages l (sectionPages s f) n = _
    rw [ih, List.reverse_cons, List.find?_append]
    cases l.reverse.find? fun s => decide (s.Contains (n * 4096)) with
    | some t => rfl
    | none =>
      unfold sectionPages
      by_cases hs : s.Contains (n * 4096) <;> simp [hs]

theorem contains_div (s : KernelSection) (virt : ℕ) : s.Contains (virt / 4096 * 4096) ↔ s.Contains virt := by
  unfold KernelSection.Contains kernelPageSize
  rw [Nat.mul_div_cancel _ (by decide)]

theorem mappedPages_sectionAt (L : SectionLayout) (virt : ℕ) :
    mappedPages L.sections (fun _ => none) (virt / 4096)
      = (L.sectionAt virt).map KernelSection.readOnly := by
  rw [mappedPages_eq, Option.or_none]
  simp only [contains_div]
  rfl

/-- No section has a page that there is no table for. -/
theorem SectionLayout.Fits.page {L : SectionLayout} (hL : L.Fits) {virt : ℕ} {s : KernelSection}
    (hs : L.sectionAt virt = some s) : 0xE0000 ≤ virt / 4096 ∧ virt / 4096 < 0xE1000 := by
  obtain ⟨h1, -, h3⟩ := hL s (List.mem_reverse.1 (List.mem_of_find?_eq_some hs))
  have hcontains : s.Contains virt := by simpa using List.find?_some hs
  obtain ⟨hstart, hstop⟩ := hcontains
  unfold kernelMemOffset kernelReservedPaging at h3
  unfold kernelMemOffset at h1
  unfold kernelPageSize at hstart hstop
  omega

/-! ## `paging_init` -/

theorem zeroPgdir_word (m : Memory) (f g i : ℕ) : ∀ n,
    ((List.range n).foldl (fun m i => m.setWord f i 0) m).word g i
      = if g = f ∧ i < n then 0 else m.word g i
  | 0 => by simp
  | n + 1 => by
    rw [List.range_succ, List.foldl_append]
    change (setWord _ f n 0).word g i = _
    by_cases h : g = f ∧ i = n
    · rw [h.1, h.2, setWord_self, if_pos ⟨rfl, Nat.lt_succ_self n⟩]
    · rw [setWord_of_ne fun hg hi => h ⟨hg, hi⟩, zeroPgdir_word m f g i n]
      split_ifs <;> first | rfl | omega

theorem kernelPages_zeroPgdir (hF : F.Apart) (hm : F.Blank m) :
    KernelPages F (fun _ => none) ((m.zeroPgdir F).setWord F.kernelPgdir 1023 (dirEntry F.kernelPgdir)) := by
  have hword := zeroPgdir_word m F.kernelPgdir
  have hdir (d : ℕ) (hd : d < 1023) :
      ((m.zeroPgdir F).setWord F.kernelPgdir 1023 (dirEntry F.kernelPgdir)).word F.kernelPgdir d = 0 := by
    rw [setWord_of_ne fun _ => by omega, zeroPgdir, hword]
    exact if_pos ⟨rfl, by unfold kernelPgdirSize; omega⟩
  refine ⟨setWord_self, fun k hk => .inr ⟨hdir _ (by omega), fun _ _ => rfl⟩, fun d hd _ => hdir d hd,
    fun k hk i hi => ?_⟩
  have hne : F.minPgtable + k ≠ F.kernelPgdir := by
    have := hF.apart
    unfold kernelReservedPaging at this
    omega
  rw [setWord_of_frame_ne hne, zeroPgdir, hword, if_neg fun h => hne h.1]
  exact hm k hk i hi

/-! ## What is mapped -/

theorem dirEntry_frame {frame : ℕ} (h : frame < 2 ^ 20) :
    entryFrame (dirEntry frame) = frame ∧ dirEntry frame &&& 1 ≠ 0 := by
  unfold dirEntry
  rw [Nat.or_assoc]
  exact ⟨entryFrame_packed h (by decide), by rw [kernelPageSize, packed_and_flags (by decide)]; decide⟩

theorem tableWord_some {q : ℕ} (hq : q < 2 ^ 20) (readOnly : Bool) :
    entryFrame (tableWord q (some readOnly)) = q ∧ tableWord q (some readOnly) &&& 1 ≠ 0
      ∧ (decide (tableWord q (some readOnly) &&& pageFlagReadWrite ≠ 0)) = !readOnly := by
  have hword : tableWord q (some readOnly)
      = q * 4096 ||| ((if readOnly then 0 else pageFlagReadWrite) ||| pageFlagPresent) := Nat.or_assoc ..
  rw [hword]
  refine ⟨entryFrame_packed hq (by cases readOnly <;> decide), ?_, ?_⟩
  · rw [packed_and_flags (by decide)]
    cases readOnly <;> decide
  · rw [packed_and_flags (by decide)]
    cases readOnly <;> decide

/-- The walk below the window. -/
theorem KernelPages.walk (hF : F.Apart) (h : KernelPages F f m) (hcr3 : m.cr3 = F.kernelPgdir)
    {virt : ℕ} (hvirt : virt < pagingRecurPgTable)
    (hout : f (virt / 4096) ≠ none → 0xE0000 ≤ virt / 4096 ∧ virt / 4096 < 0xE1000) :
    m.walk virt = (f (virt / 4096)).map fun readOnly => tableWord (virt / 4096 - 0xE0000) (some readOnly) := by
  unfold pagingRecurPgTable at hvirt
  have hd : virt / 2 ^ 22 < 1023 := by omega
  unfold Memory.walk Memory.dirWord
  rw [hcr3]
  by_cases hin : 896 ≤ virt / 2 ^ 22 ∧ virt / 2 ^ 22 < 900
  · obtain ⟨k, hk⟩ := Nat.exists_eq_add_of_le hin.1
    have hk4 : k < 4 := by omega
    have hpage : virt / 4096 = 0xE0000 + (k * 1024 + virt / 2 ^ 12 % 2 ^ 10) := by omega
    have hi : virt / 2 ^ 12 % 2 ^ 10 < 1024 := Nat.mod_lt _ (by decide)
    have htable : F.minPgtable + k < 2 ^ 20 := by
      have := hF.tables
      unfold kernelReservedPaging at this
      omega
    obtain ⟨hframe, hpresent⟩ := dirEntry_frame htable
    rcases h.dir k hk4 with hw | ⟨hw, hnone⟩
    · rw [hk, hw]
      dsimp only
      rw [if_neg hpresent, hframe, h.page k hk4 _ hi, ← hpage, show virt / 4096 - 0xE0000
        = k * 1024 + virt / 2 ^ 12 % 2 ^ 10 by omega]
      cases f (virt / 4096) with
      | none => exact if_pos (Nat.zero_and 1)
      | some readOnly => exact if_neg (tableWord_some (by omega) readOnly).2.1
    · rw [hk, hw, hpage, hnone _ hi]
      rfl
  · have hw := h.rest (virt / 2 ^ 22) hd (by omega)
    have hnone : f (virt / 4096) = none := by
      by_contra hne
      have := hout hne
      omega
    rw [hw, hnone]
    rfl

theorem KernelPages.recursive (hF : F.Apart) (h : KernelPages F f m) (hcr3 : m.cr3 = F.kernelPgdir) :
    m.Recursive := by
  obtain ⟨hframe, hpresent⟩ := dirEntry_frame hF.pgdir
  have hw : m.dirWord 1023 = dirEntry F.kernelPgdir := by
    rw [Memory.dirWord, hcr3, h.last]
  exact ⟨by rwa [hw], by rw [hw, hframe, hcr3]⟩

/-- The entries of the directory that are present. -/
theorem KernelPages.dirWord (h : KernelPages F f m) (hcr3 : m.cr3 = F.kernelPgdir) {d : ℕ}
    (hd : d < 1024) (hp : m.dirWord d &&& 1 ≠ 0) :
    d = 1023 ∧ m.dirWord d = dirEntry F.kernelPgdir
      ∨ ∃ k < 4, d = 896 + k ∧ m.dirWord d = dirEntry (F.minPgtable + k) := by
  unfold Memory.dirWord at hp ⊢
  rw [hcr3] at hp ⊢
  by_cases hlast : d = 1023
  · exact .inl ⟨hlast, hlast ▸ h.last⟩
  · by_cases hin : 896 ≤ d ∧ d < 900
    · obtain ⟨k, rfl⟩ := Nat.exists_eq_add_of_le hin.1
      have hk : k < 4 := by omega
      rcases h.dir k hk with hw | ⟨hw, -⟩
      · exact .inr ⟨k, hk, rfl, hw⟩
      · rw [hw, Nat.zero_and] at hp
        exact absurd rfl hp
    · rw [h.rest d (by omega) (by omega), Nat.zero_and] at hp
      exact absurd rfl hp

/-- The frames that the directory has are its own and those of the tables, each once. -/
theorem KernelPages.tableFrame (hF : F.Apart) (h : KernelPages F f m) (hcr3 : m.cr3 = F.kernelPgdir)
    {P : Pool} {d : ℕ} (hd : d < 1024) (hp : (PageMemory.mk m P).Present d) :
    d = 1023 ∧ (PageMemory.mk m P).tableFrame d = F.kernelPgdir
      ∨ ∃ k < 4, d = 896 + k ∧ (PageMemory.mk m P).tableFrame d = F.minPgtable + k := by
  have htables := hF.tables
  unfold kernelReservedPaging at htables
  unfold PageMemory.tableFrame
  rcases h.dirWord hcr3 hd hp with ⟨hlast, hw⟩ | ⟨k, hk, hin, hw⟩
  · refine .inl ⟨hlast, ?_⟩
    rw [hw]
    exact (dirEntry_frame hF.pgdir).1
  · refine .inr ⟨k, hk, hin, ?_⟩
    rw [hw]
    exact (dirEntry_frame (by omega)).1

theorem KernelPages.pageTables (hF : F.Apart) (h : KernelPages F f m) (hcr3 : m.cr3 = F.kernelPgdir)
    {P : Pool} (hP : ∃ l, P.PageAreas l)
    (hfree : ∀ g ∈ F.frames, ∀ a ∈ P.areaList.map P.area, g * kernelPageSize ∉ a.bytes) :
    (PageMemory.mk m P).PageTables := by
  refine ⟨h.recursive hF hcr3, fun d hd d' hd' hp hp' heq => ?_, fun d hd hp a ha => ?_, hP⟩
  · have hapart := hF.apart
    unfold kernelReservedPaging at hapart
    rcases h.tableFrame hF hcr3 hd hp with ⟨h1, h2⟩ | ⟨k, hk, h1, h2⟩ <;>
      rcases h.tableFrame hF hcr3 hd' hp' with ⟨h1', h2'⟩ | ⟨k', hk', h1', h2'⟩ <;>
      omega
  · have hmem : (PageMemory.mk m P).tableFrame d ∈ F.frames := by
      unfold KernelTables.frames
      rcases h.tableFrame hF hcr3 hd hp with ⟨-, h2⟩ | ⟨k, hk, -, h2⟩
      · rw [h2]
        exact List.mem_cons_self
      · rw [h2]
        exact List.mem_cons_of_mem _ (List.mem_map.2 ⟨k, List.mem_range.2 hk, rfl⟩)
    exact hfree _ hmem a ha

/-- Every table in the directory lets its pages be written. -/
theorem KernelPages.dirWritable (h : KernelPages F f m) (hcr3 : m.cr3 = F.kernelPgdir) :
    m.DirWritable := by
  have hflag (frame : ℕ) : dirEntry frame &&& 2 ≠ 0 := by
    unfold dirEntry
    rw [Nat.or_assoc, kernelPageSize, packed_and_flags (by decide)]
    decide
  intro d hd hp
  rcases h.dirWord hcr3 hd hp with ⟨-, hw⟩ | ⟨k, -, -, hw⟩
  · rw [hw]
    exact hflag _
  · rw [hw]
    exact hflag _

/-- `paging_init` maps each page of the kernel, and nothing else, to the memory that the boot loader put
it in, with the protection of the last section that has the page: both levels of tables let it be written,
or the page's entry does not. The tables are ready for `kernel_mmap` with every pool that has none of
their frames. -/
theorem pagingInit_maps {F : KernelTables} {L : SectionLayout} {m : Memory} (hF : F.Apart) (hL : L.Fits)
    (hm : F.Blank m) :
    ∃ r, m.pagingInit F L = some r
      ∧ (∀ virt < pagingRecurPgTable,
        (r.walk virt).map (fun e => (entryFrame e * kernelPageSize + virt % kernelPageSize,
            decide (e &&& pageFlagReadWrite ≠ 0)))
          = (L.sectionAt virt).map (fun s => (virt - kernelMemOffset, !s.readOnly))
        ∧ r.writable virt = (L.sectionAt virt).any fun s => !s.readOnly)
      ∧ r.DirWritable
      ∧ ∀ P : Pool, (∃ l, P.PageAreas l) →
        (∀ g ∈ F.frames, ∀ a ∈ P.areaList.map P.area, g * kernelPageSize ∉ a.bytes) →
        (PageMemory.mk r P).PageTables := by
  obtain ⟨t, ht, hpages⟩ := (kernelPages_zeroPgdir hF hm).mapSections hF hL
  have hr : KernelPages F (mappedPages L.sections fun _ => none) { t with cr3 := F.kernelPgdir } :=
    ⟨hpages.last, hpages.dir, hpages.rest, hpages.page⟩
  have hdir := hr.dirWritable rfl
  refine ⟨_, congrArg (Option.map _) ht, fun virt hvirt => ?_, hdir, fun P hP hfree =>
    hr.pageTables hF rfl hP hfree⟩
  have hwalk := hr.walk hF rfl hvirt fun hne => by
    rw [mappedPages_sectionAt] at hne
    obtain ⟨s, hs⟩ := Option.ne_none_iff_exists'.1 fun h => hne (congrArg (Option.map _) h)
    exact hL.page hs
  rw [hdir.writable_eq (hvirt.trans (by decide)), hwalk, mappedPages_sectionAt]
  cases hs : L.sectionAt virt with
  | none => exact ⟨rfl, rfl⟩
  | some s =>
    obtain ⟨h1, h2⟩ := hL.page hs
    obtain ⟨hframe, -, hflag⟩ := tableWord_some (q := virt / 4096 - 0xE0000) (by omega) s.readOnly
    refine ⟨?_, ?_⟩
    · simp only [Option.map_some, hframe, hflag, Option.some.injEq, Prod.mk.injEq, and_true]
      unfold kernelPageSize kernelMemOffset
      omega
    · rw [Option.map_some, Option.map_some, Option.any_some, Option.any_some]
      exact hflag

/-- A kernel of 64 KiB and its heap, as the linker script places them. -/
def smallKernel : SectionLayout where
  codeStart := 0xE0101000
  codeEnd := 0xE0104A13
  rodataStart := 0xE0105000
  rodataEnd := 0xE0105E80
  dataStart := 0xE0106000
  dataEnd := 0xE0106024
  bssStart := 0xE0107000
  bssEnd := 0xE010F010
  structStart := 0xE0110000
  structEnd := 0xE0110000
  heapStart := 0xE0110000
  heapEnd := 0xE0910000

theorem pagingInit_maps_smallKernel :
    ∃ r, (Memory.mk (fun _ _ => 0) 0).pagingInit ⟨0x108, 0x109⟩ smallKernel = some r
      ∧ (r.walk 0xE0104FFF).map (fun e => (entryFrame e * kernelPageSize + 0xFFF,
          decide (e &&& pageFlagReadWrite ≠ 0))) = some (0x104FFF, false)
      ∧ (r.walk 0xE0110010).map (fun e => (entryFrame e * kernelPageSize + 0x10,
          decide (e &&& pageFlagReadWrite ≠ 0))) = some (0x110010, true)
      ∧ r.writable 0xE0110010 = true ∧ r.writable 0xE0104FFF = false
      ∧ (r.walk 0xB8000).map (fun e => (entryFrame e * kernelPageSize + 0,
          decide (e &&& pageFlagReadWrite ≠ 0))) = none := by
  obtain ⟨r, hr, hwalk, -⟩ := pagingInit_maps (F := ⟨0x108, 0x109⟩) (L := smallKernel)
    (m := ⟨fun _ _ => 0, 0⟩) ⟨by decide, by decide, by decide⟩ (by decide) fun _ _ _ _ => rfl
  exact ⟨r, hr, (hwalk 0xE0104FFF (by decide)).1, (hwalk 0xE0110010 (by decide)).1,
    (hwalk 0xE0110010 (by decide)).2, (hwalk 0xE0104FFF (by decide)).2, (hwalk 0xB8000 (by decide)).1⟩

end RTLKIM

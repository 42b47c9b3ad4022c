import RTLKIM.FramePool
import RTLKIM.Proofs.MemAllocCanon

/-!
# The frames handed out are those of the map

Each range of the map adds its bytes after the kernel to the free ones, whatever the order. The
links back are right too unless a range fills the gap between two areas with a third further on. An
area of a page or more then starts at a page, blocks taken from its front leave it so, and none of
them has a byte that was not free.
-/

namespace RTLKIM

namespace Pool

variable {K : KernelLayout} {kmalloc : ℕ → ℕ} {m u : List MemRange} {r : MemRange} {P : Pool}

/-! ## The loop over the map -/

/-- The bytes a range adds. -/
def frameArea (K : KernelLayout) (r : MemRange) : Area :=
  ⟨max K.firstFrame r.base, r.limit - max K.firstFrame r.base⟩

theorem frameArea_bytes (h : r.HasFrames K) (hr : r.base < r.limit) :
    (frameArea K r).bytes = {x | K.firstFrame ≤ x ∧ x ∈ r.bytes} := by
  have hlim := h.2
  ext x
  simp only [frameArea, Area.bytes, Area.stop, MemRange.bytes, Set.mem_Ico, Set.mem_ofPred_eq]
  omega

theorem freeBytes_append : freeBytes K (u ++ [r]) = freeBytes K u
    ∪ {x | K.firstFrame ≤ x ∧ r.type = 1 ∧ x ∈ r.bytes} := by
  ext x
  simp only [freeBytes, List.mem_append, List.mem_singleton, Set.mem_union, Set.mem_ofPred_eq]
  constructor
  · rintro ⟨hx, q, hq | rfl, h⟩
    · exact .inl ⟨hx, q, hq, h⟩
    · exact .inr ⟨hx, h⟩
  · rintro (⟨hx, q, hq, h⟩ | ⟨hx, h⟩)
    · exact ⟨hx, q, .inl hq, h⟩
    · exact ⟨hx, r, .inr rfl, h⟩

theorem freeBytes_of_hasFrames (h : r.HasFrames K) (hr : r.base < r.limit) :
    freeBytes K (u ++ [r]) = freeBytes K u ∪ (frameArea K r).bytes := by
  rw [freeBytes_append, frameArea_bytes h hr]
  simp only [h.1, true_and]

theorem freeBytes_of_not_hasFrames (h : ¬ r.HasFrames K) :
    freeBytes K (u ++ [r]) = freeBytes K u := by
  rw [freeBytes_append, Set.union_eq_left]
  rintro x ⟨hx, htype, hxr⟩
  exact absurd ⟨htype, hx.trans_lt hxr.2⟩ h

/-- What the loop needs of the map: its free ranges hold bytes, and no two the same. -/
structure Usable (K : KernelLayout) (m : List MemRange) : Prop where
  range : ∀ r ∈ m, r.HasFrames K → r.base < r.limit ∧ r.limit < 2 ^ 32
  disjoint : m.Pairwise fun a b => a.type = 1 → b.type = 1 → Disjoint a.bytes b.bytes

/-- No range lies between the bytes of two earlier ones with others further on. -/
def NoBridge (K : KernelLayout) (m : List MemRange) : Prop :=
  ∀ u r v, m = u ++ r :: v → r.HasFrames K →
    ¬ Bridges (freeBytes K u) (max K.firstFrame r.base) r.limit

/-- The last address is in no range. -/
theorem Usable.last_not_mem (h : Usable K m) (hu : ∀ r ∈ u, r ∈ m) :
    2 ^ 32 - 1 ∉ freeBytes K u := by
  rintro ⟨hle, q, hq, htype, hx⟩
  have hxl := hx.2
  have := (h.range q (hu q hq) ⟨htype, hle.trans_lt hxl⟩).2
  omega

/-- A range adds its bytes. -/
theorem Spans.addRange {e : Prop} {v : List MemRange} {node : ℕ} (h : P.Spans e (freeBytes K u))
    (hm : Usable K (u ++ r :: v)) (hr : r.HasFrames K)
    (he : e → ¬ Bridges (freeBytes K u) (max K.firstFrame r.base) r.limit) (h0 : node ≠ 0)
    (hfresh : node ∉ P.alive) :
    ∃ P', P.addFree (max K.firstFrame r.base) (sub32 r.limit (max K.firstFrame r.base)) node
        = some (P', .noErr) ∧ P'.Spans e (freeBytes K (u ++ [r])) := by
  obtain ⟨hlt, hlim⟩ := hm.range r (by simp) hr
  have hstart : max K.firstFrame r.base < r.limit := max_lt hr.2 hlt
  have hstop : max K.firstFrame r.base + (r.limit - max K.firstFrame r.base) = r.limit :=
    Nat.add_sub_cancel' hstart.le
  have hdisj : Disjoint (frameArea K r).bytes (freeBytes K u) := by
    rw [frameArea_bytes hr hlt]
    refine Set.disjoint_left.2 fun x ⟨_, hx⟩ ⟨_, q, hq, htype, hxq⟩ => ?_
    have := (List.pairwise_append.1 hm.disjoint).2.2 q hq r (by simp) htype hr.1
    exact Set.disjoint_left.1 this hxq hx
  have hroom : 2 ^ 32 - 1 ∉ freeBytes K u ∪ (frameArea K r).bytes := by
    rw [← freeBytes_of_hasFrames hr hlt]
    refine hm.last_not_mem fun x hx => ?_
    simp only [List.mem_append, List.mem_cons] at hx ⊢
    tauto
  rw [sub32_of_le hstart.le hlim, freeBytes_of_hasFrames hr hlt]
  exact h.addFree (Nat.sub_pos_of_lt hstart) (hstop.trans_le hlim.le) hdisj
    ⟨_, by decide, hroom⟩ (by rwa [hstop]) h0 hfresh

/-- The loop over what is left of the map. -/
theorem initFrames_spans {e : Prop} : ∀ (m u : List MemRange) {P : Pool},
    P.Spans e (freeBytes K u) → Usable K (u ++ m) → (e → NoBridge K (u ++ m)) →
    FreshFrames K kmalloc m P → ∃ P', P.initFrames K kmalloc m = some (P', .noErr)
      ∧ P'.Spans e (freeBytes K (u ++ m))
  | [], u, P, h, _, _, _ => ⟨P, rfl, by rwa [List.append_nil]⟩
  | r :: m, u, P, h, hm, he, hk => by
    have happ : u ++ [r] ++ m = u ++ r :: m := by simp
    unfold FreshFrames at hk
    unfold initFrames
    by_cases hr : r.HasFrames K
    · rw [if_pos hr] at hk
      obtain ⟨⟨h0, hfresh⟩, hk⟩ := hk
      obtain ⟨P', hcode, hP'⟩ := h.addRange hm hr (fun htrue => he htrue u r m rfl hr) h0 hfresh
      obtain ⟨P'', hrun, hP''⟩ := initFrames_spans m (u ++ [r]) hP' (happ ▸ hm)
        (happ ▸ he) (hk P' hcode)
      refine ⟨P'', ?_, happ ▸ hP''⟩
      have hin : r.type = 1 ∧ sub32 K.kernelEnd kernelMemOffset < r.limit := hr
      unfold KernelLayout.firstFrame at hcode
      rw [← hrun, if_pos hin]
      simp only [hcode]
    · rw [if_neg hr] at hk
      rw [← freeBytes_of_not_hasFrames hr] at h
      obtain ⟨P'', hrun, hP''⟩ := initFrames_spans m (u ++ [r]) h (happ ▸ hm) (happ ▸ he) hk
      refine ⟨P'', ?_, happ ▸ hP''⟩
      have hout : ¬ (r.type = 1 ∧ sub32 K.kernelEnd kernelMemOffset < r.limit) := hr
      rw [← hrun, if_neg hout]

theorem WellFormed.empty : empty.WellFormed [] :=
  .of_apart ⟨Dll.nil, by simp⟩ .nil (by simp) (by simp)

theorem Spans.empty (e : Prop) : empty.Spans e (freeBytes K []) := by
  have h := WellFormed.empty.spans e
  have hnone : freeBytes K [] = ∅ := by
    ext x
    simp [freeBytes]
  rwa [List.map_nil, covered_nil, ← hnone] at h

/-- The frames are those of the free ranges after the kernel, in any order of the map: sorted,
disjoint and with gaps between the areas. -/
theorem initFrames_covers {m : List MemRange}
    (hrange : ∀ r ∈ m, r.type = 1 → r.base < r.limit ∧ r.limit < 2 ^ 32)
    (hdisj : m.Pairwise fun a b => a.type = 1 → b.type = 1 → Disjoint a.bytes b.bytes)
    (hk : FreshFrames K kmalloc m Pool.empty) :
    ∃ P l, Pool.empty.initFrames K kmalloc m = some (P, .noErr)
      ∧ Sll (fun n => (P.nodes n).next) P.list l
      ∧ (l.map P.area).Pairwise (fun a b => a.start < b.start)
      ∧ (l.map P.area).Pairwise (fun a b => Disjoint a.bytes b.bytes)
      ∧ (l.map P.area).Pairwise (fun a b => a.stop ≠ b.start ∧ b.stop ≠ a.start)
      ∧ covered (l.map P.area) = {x | sub32 K.kernelEnd kernelMemOffset ≤ x
        ∧ ∃ r ∈ m, r.type = 1 ∧ r.base ≤ x ∧ x < r.limit} := by
  obtain ⟨P, hrun, hP⟩ := initFrames_spans m [] (Spans.empty False)
    ⟨fun r hr h => hrange r hr h.1, hdisj⟩ False.elim hk
  obtain ⟨l, hsll, hm⟩ := hP.list
  exact ⟨P, l, hrun, hsll, hm.apart.sorted, hm.apart.disjoint, hm.apart.gaps, hm.covers⟩

/-- Addresses that are all different are fresh. -/
theorem freshFrames_of_injective (hk : Function.Injective kmalloc) (hk0 : ∀ i, kmalloc i ≠ 0) :
    ∀ (m : List MemRange) {P : Pool}, (∀ x ∈ P.alive, ∃ j, m.length ≤ j ∧ x = kmalloc j) →
      FreshFrames K kmalloc m P
  | [], _, _ => trivial
  | r :: m, P, halive => by
    have halive' : ∀ x ∈ P.alive, ∃ j, m.length ≤ j ∧ x = kmalloc j := by
      intro x hx
      obtain ⟨j, hj, hxj⟩ := halive x hx
      exact ⟨j, (Nat.le_succ _).trans hj, hxj⟩
    unfold FreshFrames
    split_ifs
    · refine ⟨⟨hk0 _, fun hmem => ?_⟩, fun P' hcode => ?_⟩
      · obtain ⟨j, hj, heq⟩ := halive _ hmem
        rw [← hk heq] at hj
        exact absurd hj (Nat.not_le.2 (Nat.lt_succ_self _))
      · refine freshFrames_of_injective hk hk0 m fun x hx => ?_
        rcases addFree_alive hcode x hx with rfl | hx
        · exact ⟨m.length, le_rfl, rfl⟩
        · exact halive' x hx
    · exact freshFrames_of_injective hk hk0 m halive'

/-- Ranges of which one ends before the other have no byte in common. -/
theorem disjoint_of_apart (h : m.Pairwise fun a b => a.limit ≤ b.base ∨ b.limit ≤ a.base) :
    m.Pairwise fun a b => Disjoint a.bytes b.bytes := by
  refine h.imp fun {a b} hab => Set.disjoint_left.2 fun x hx hx' => ?_
  simp only [MemRange.bytes, Set.mem_Ico] at hx hx'
  omega

/-- A map that is not sorted, with the end of the kernel inside a free range. -/
def shuffledMap : List MemRange :=
  [⟨0x300000, 0x400000, 1⟩, ⟨0x200000, 0x300000, 2⟩, ⟨0x100000, 0x200000, 1⟩]

theorem initFrames_covers_shuffled : ∃ P l,
    Pool.empty.initFrames ⟨0xE0180000, 0x100000⟩ (fun i => i + 1) shuffledMap = some (P, .noErr)
      ∧ Sll (fun n => (P.nodes n).next) P.list l
      ∧ covered (l.map P.area) = Set.Ico 0x180000 0x200000 ∪ Set.Ico 0x300000 0x400000 := by
  obtain ⟨P, l, hrun, hsll, -, -, -, hcov⟩ := initFrames_covers (K := ⟨0xE0180000, 0x100000⟩)
    (m := shuffledMap) (by decide) ((disjoint_of_apart (by decide)).imp fun h _ _ => h)
    (freshFrames_of_injective (add_left_injective 1) (by simp) _ (by simp [Pool.empty]))
  have hfirst : sub32 0xE0180000 kernelMemOffset = 0x180000 := by decide +kernel
  refine ⟨P, l, hrun, hsll, hcov.trans ?_⟩
  ext x
  simp only [hfirst, shuffledMap, Set.mem_ofPred_eq, Set.mem_union, Set.mem_Ico]
  simp
  omega

/-! ## Calls of `memalloc_alloc_kframes` -/

end Pool

namespace FrameSys

open Pool

variable {K : KernelLayout} {m : List MemRange} {s s' : FrameSys}

/-- What is free or given is frames of the map. -/
structure Inv (K : KernelLayout) (m : List MemRange) (s : FrameSys) : Prop where
  list : ∃ l, s.pool.WellFormed l ∧ ∀ a ∈ l.map s.pool.area, a.bytes ⊆ freeBytes K m
    ∧ (kernelPageSize ≤ a.size → a.start % kernelPageSize = 0)
  given : ∀ b ∈ s.given, b.1 % kernelPageSize = 0
    ∧ Set.Ico b.1 (b.1 + b.2 * kernelPageSize) ⊆ freeBytes K m

/-- The areas of bytes whose frames start at a page do so too. -/
theorem Inv.start {P : Pool} {l : List ℕ} (h : P.WellFormed l)
    (hcov : covered (l.map P.area) = freeBytes K m) (hpaged : Paged (freeBytes K m)) :
    Inv K m ⟨P, []⟩ := by
  refine ⟨⟨l, h, fun a ha => ⟨fun x hx => hcov ▸ ⟨a, ha, hx⟩, fun hsize => ?_⟩⟩, by simp⟩
  refine hpaged a.start (fun i hi => ?_) fun y hy hya => ?_
  · rw [← hcov]
    refine ⟨a, ha, Nat.le_add_right _ _, ?_⟩
    exact Nat.add_lt_add_left (hi.trans_le hsize) _
  · -- the byte before an area is in no other
    rw [← hcov] at hy
    obtain ⟨b, hb, hyb⟩ := hy
    have h1 := hyb.1
    have h2 := hyb.2
    rcases h.merged.apart.trichotomy ha hb with rfl | hlt | hlt
    · omega
    · unfold Area.Before Area.stop at hlt
      omega
    · unfold Area.Before at hlt
      omega

/-- Frames taken from the front of an area. -/
theorem Inv.allocKframes (h : Inv K m s) {count : ℕ} (hpos : 1 ≤ count)
    (hok : s.Sized (.allocKframes count)) (hs : s.step (.allocKframes count) = some s') :
    Inv K m s' := by
  obtain ⟨l, hw, hl⟩ := h.list
  simp only [step] at hs
  split_ifs at hs
  have hneed : mul32 kernelPageSize count = _ := rfl
  rcases hw.getBlock hneed with ⟨-, hcode⟩ |
    ⟨A, P', l', u, v, hA, hcode, hw', hmap, hle, harea⟩
  · rw [hcode] at hs
    cases hs
    exact h
  rw [hcode] at hs
  cases hs
  have hmem : A ∈ l.map s.pool.area := List.mem_of_find?_eq_some hA
  have hcount : count * kernelPageSize < 2 ^ 32 := by
    refine hok.resolve_right fun hsmall => ?_
    obtain ⟨n, hn, rfl⟩ := List.mem_map.1 hmem
    rw [hw.list.areaList_eq] at hsmall
    exact absurd (hsmall n hn) (Nat.not_lt.2 hle)
  have hmul : mul32 kernelPageSize count = count * kernelPageSize := by
    rw [mul32_of_lt (by rwa [Nat.mul_comm] at hcount), Nat.mul_comm]
  rw [hmul] at hle harea
  obtain ⟨hbytes, halign⟩ := hl A hmem
  have hpage : A.start % kernelPageSize = 0 :=
    halign ((Nat.le_mul_of_pos_left _ hpos).trans hle)
  refine ⟨⟨l', hw', ?_⟩, fun b hb => ?_⟩
  · rw [harea]
    refine forall_mem_takeArea (hmap ▸ hl) fun _ _ => ⟨fun x hx => hbytes ?_, fun _ => ?_⟩
    · simp only [Area.bytes, Area.stop, Set.mem_Ico] at hx ⊢
      omega
    · show (A.start + count * kernelPageSize) % kernelPageSize = 0
      rw [Nat.add_mul_mod_self_right]
      exact hpage
  · rcases List.mem_cons.1 hb with rfl | hb
    · refine ⟨hpage, fun x hx => hbytes ⟨hx.1, hx.2.trans_le ?_⟩⟩
      exact Nat.add_le_add_left hle _
    · exact h.given b hb

/-- Memory that is no node's is not read. -/
theorem Inv.write (h : Inv K m s) {addr : ℕ} {a : MemArea} (hs : s.step (.write addr a) = some s') :
    Inv K m s' := by
  simp only [step] at hs
  split_ifs at hs with hmem
  cases hs
  obtain ⟨l, hw, hl⟩ := h.list
  have hnodes : ∀ n ∈ l, (s.pool.setNode addr a).nodes n = s.pool.nodes n := fun n hn =>
    setNode_of_ne fun e => hmem (e ▸ hw.alive n hn)
  have hmap : l.map (s.pool.setNode addr a).area = l.map s.pool.area := by
    refine List.map_congr_left fun n hn => ?_
    unfold area
    rw [hnodes n hn]
  refine ⟨⟨l, .of_apart ⟨?_, hw.alive⟩ ?_ ?_ ?_, ?_⟩, h.given⟩
  · exact hw.dll.congr (fun n hn => congrArg MemArea.next (hnodes n hn))
      fun n hn => congrArg MemArea.prev (hnodes n hn)
  · rw [hmap]
    exact hw.merged.apart
  · rw [hmap]
    exact hw.pos
  · rw [hmap]
    exact hw.words
  · rw [hmap]
    exact hl

theorem Inv.run (h : Inv K m s) (hr : Reach step Sized s s') : Inv K m s' := by
  refine hr.invariant h fun t e t' ht hok hs => ?_
  cases e with
  | allocKframes count =>
    refine ht.allocKframes ?_ hok hs
    simp only [step] at hs
    split_ifs at hs with hcount
    exact hcount.1
  | write addr a => exact ht.write hs

/-- On a map whose free ranges hold bytes, whose frames start at pages, and of which no range joins
two earlier ones with another further on, frames that are handed out are pages of free ranges. -/
theorem frames_usable {kmalloc : ℕ → ℕ} (hm : ∀ r ∈ m, r.base < 2 ^ 32 ∧ r.limit < 2 ^ 32)
    (hdisj : m.Pairwise fun a b => Disjoint a.bytes b.bytes)
    (hk : FreshFrames K kmalloc m Pool.empty) (hrange : ∀ r ∈ m, r.HasFrames K → r.base < r.limit)
    (hpaged : Paged (freeBytes K m)) (hbridge : NoBridge K m) :
    ∃ F, Pool.empty.initFrames K kmalloc m = some (F, .noErr)
      ∧ ∀ s, Reach step Sized ⟨F, []⟩ s → ∀ b ∈ s.given, b.1 % kernelPageSize = 0
        ∧ ∀ x, b.1 ≤ x → x < b.1 + b.2 * kernelPageSize →
          ∃ r ∈ m, r.type = 1 ∧ r.base ≤ x ∧ x < r.limit := by
  obtain ⟨F, hrun, hF⟩ := initFrames_spans m [] (Spans.empty True)
    ⟨fun r hr h => ⟨hrange r hr h, (hm r hr).2⟩, hdisj.imp fun h _ _ => h⟩ (fun _ => hbridge) hk
  obtain ⟨l, hw, hcov⟩ := hF.exact trivial
  refine ⟨F, hrun, fun s hs b hb => ?_⟩
  obtain ⟨hpage, hbytes⟩ := ((Inv.start hw hcov hpaged).run hs).given b hb
  refine ⟨hpage, fun x h1 h2 => ?_⟩
  obtain ⟨-, r, hr, htype, hx⟩ := hbytes ⟨h1, h2⟩
  exact ⟨r, hr, htype, hx.1, hx.2⟩

/-! ## Sorted maps of pages -/

/-- A range past all the earlier ones joins none of them to another. -/
theorem noBridge_of_sorted (hs : m.Pairwise fun a b => a.limit ≤ b.base)
    (hrange : ∀ r ∈ m, r.HasFrames K → r.base < r.limit) : NoBridge K m := by
  rintro u r v rfl hr ⟨-, ⟨-, q, hq, -, hx⟩, -⟩
  have hle := (List.pairwise_append.1 hs).2.2 q hq r (by simp)
  have hlt := hrange r (by simp) hr
  have hlim := hx.2
  omega

/-- Bytes of pages start at pages. -/
theorem paged_of_aligned (hfirst : K.firstFrame % kernelPageSize = 0)
    (hbase : ∀ r ∈ m, r.type = 1 → r.base % kernelPageSize = 0) : Paged (freeBytes K m) := by
  intro x hx hprev
  have h0 := hx 0 (by decide)
  rw [Nat.add_zero] at h0
  obtain ⟨hle, r, hr, htype, hxr⟩ := h0
  rcases hle.eq_or_lt with heq | hlt
  · exact heq ▸ hfirst
  rcases hxr.1.eq_or_lt with heq | hlt'
  · exact heq ▸ hbase r hr htype
  · -- the byte before is in the same range
    have hmem : x - 1 ∈ freeBytes K m := by
      refine ⟨Nat.le_sub_one_of_lt hlt, r, hr, htype, Nat.le_sub_one_of_lt hlt', ?_⟩
      exact (Nat.sub_le _ _).trans_lt hxr.2
    exact absurd (Nat.sub_add_cancel (Nat.one_le_of_lt hlt)) (hprev _ hmem)

/-- Two pages after the kernel, and more from 3 MB on: two frames, then three. -/
theorem frames_usable_two_ranges : ∃ F s,
    Pool.empty.initFrames ⟨0xE0180000, 0x100000⟩ (fun i => i + 1)
      [⟨0x100000, 0x182000, 1⟩, ⟨0x182000, 0x183000, 2⟩, ⟨0x300000, 0x400000, 1⟩] = some (F, .noErr)
    ∧ Reach step Sized ⟨F, []⟩ s ∧ s.given = [(0x300000, 3), (0x180000, 2)]
    ∧ ∀ b ∈ s.given, b.1 % kernelPageSize = 0 ∧ ∀ x, b.1 ≤ x → x < b.1 + b.2 * kernelPageSize →
      ∃ r ∈ [(⟨0x100000, 0x182000, 1⟩ : MemRange), ⟨0x182000, 0x183000, 2⟩, ⟨0x300000, 0x400000, 1⟩],
        r.type = 1 ∧ r.base ≤ x ∧ x < r.limit := by
  obtain ⟨F, hF, hall⟩ := frames_usable (K := ⟨0xE0180000, 0x100000⟩)
    (m := [⟨0x100000, 0x182000, 1⟩, ⟨0x182000, 0x183000, 2⟩, ⟨0x300000, 0x400000, 1⟩])
    (by decide) (disjoint_of_apart (by decide))
    (freshFrames_of_injective (add_left_injective 1) (by simp) _ (by simp [Pool.empty]))
    (by decide +kernel) (paged_of_aligned (by decide +kernel) (by decide))
    (noBridge_of_sorted (by decide) (by decide +kernel))
  have hrun : ((Pool.empty.initFrames ⟨0xE0180000, 0x100000⟩ (fun i => i + 1)
      [⟨0x100000, 0x182000, 1⟩, ⟨0x182000, 0x183000, 2⟩, ⟨0x300000, 0x400000, 1⟩]).bind fun r =>
        (runEvents (guarded step Sized) ⟨r.1, []⟩ [.allocKframes 2, .allocKframes 3]).map
          FrameSys.given) = some [(0x300000, 3), (0x180000, 2)] := by decide +kernel
  rw [hF, Option.bind_some] at hrun
  obtain ⟨s, hs, hgiven⟩ := Option.map_eq_some_iff.1 hrun
  exact ⟨F, s, hF, .of_run hs, hgiven, hall s (.of_run hs)⟩

/-- The firmware's free range does not start at a page, and neither does the frame handed out. -/
theorem not_frames_usable : ∃ F s,
    Pool.empty.initFrames ⟨0xE0180000, 0x100000⟩ (fun i => i + 1)
      [⟨0x100000, 0x180000, 2⟩, ⟨0x200800, 0x300000, 1⟩] = some (F, .noErr)
    ∧ runEvents step ⟨F, []⟩ [.allocKframes 1] = some s
    ∧ (0x200800, 1) ∈ s.given ∧ ¬ 0x200800 % kernelPageSize = 0 := by
  have hrun : ((Pool.empty.initFrames ⟨0xE0180000, 0x100000⟩ (fun i => i + 1)
      [⟨0x100000, 0x180000, 2⟩, ⟨0x200800, 0x300000, 1⟩]).bind fun r =>
        (runEvents step ⟨r.1, []⟩ [.allocKframes 1]).map fun s => (r.2, s.given))
      = some (.noErr, [(0x200800, 1)]) := by decide +kernel
  obtain ⟨⟨F, err⟩, hF, hrun⟩ := Option.bind_eq_some_iff.1 hrun
  obtain ⟨s, hs, heq⟩ := Option.map_eq_some_iff.1 hrun
  obtain ⟨rfl, hgiven⟩ := Prod.mk.inj heq
  exact ⟨F, s, hF, hs, by rw [hgiven]; decide, by decide⟩

end FrameSys

end RTLKIM

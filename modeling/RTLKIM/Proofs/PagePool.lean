import RTLKIM.PagePool
import RTLKIM.Proofs.MemAllocOps

/-!
# The pages given back

`memalloc_init` adds areas that start past the end of the last one, so the list is apart and its
first area is not empty (`PageList`). A block taken from the front of an area and given back leaves
the areas as they were; but `memalloc_free_kpages` takes back only what starts at `KERNEL_MEM_OFFSET
+ _kernel_end` or after, where `_kernel_end` has the offset in it already.
-/

namespace RTLKIM

namespace Pool

variable {P P' : Pool} {l : List ℕ} {start size node : ℕ}

/-- The list goes through the nodes `l`, whose areas are apart; the first is not empty. -/
structure PageList (P : Pool) (l : List ℕ) : Prop where
  list : P.PoolList l
  apart : Apart (l.map P.area)
  bounded : P.Bounded l
  first : ∀ a ∈ (l.map P.area).head?, 0 < a.size

theorem PageList.areas_eq (h : P.PageList l) : P.areas = l.map P.area := by
  rw [areas, h.list.areaList_eq]

/-- An address inside an area is refused. -/
theorem PageList.refuses (h : P.PageList l) (hb : start + size < 2 ^ 32) (h0 : node ≠ 0)
    (hfresh : node ∉ P.alive) {a : Area} (ha : a ∈ l.map P.area) (hlo : a.start ≤ start)
    (hhi : start < a.stop) : P.addFree start size node ≠ some (P', .noErr) := by
  obtain ⟨m, hm, rfl⟩ := List.mem_map.1 ha
  -- an area that ends by `start` is before the one `start` is in
  have hbefore : ∀ n ∈ l, (P.area n).stop ≤ start → (P.area n).Before (P.area m) := by
    intro n hn hstop
    rcases h.apart.trichotomy (List.mem_map_of_mem hn) ha with heq | hlt | hlt
    · rw [heq] at hstop
      omega
    · exact hlt
    · unfold Area.Before Area.stop at *
      omega
  have hpw := List.pairwise_map.1 h.apart.pairwise
  have hfirst : ∀ c ∈ l.head?, (P.nodes c).start ≤ start ∨ start + size ≤ (P.nodes c).start := by
    intro c hc
    rcases l with _ | ⟨b, t⟩
    · cases hc
    obtain rfl : b = c := Option.some_inj.1 hc
    rcases List.mem_cons.1 hm with rfl | hm
    · exact .inl hlo
    · have hlt : (P.area b).stop < (P.area m).start := (List.pairwise_cons.1 hpw).1 m hm
      simp only [Area.stop, area] at hlt hlo
      omega
  have hgap : ∀ u p c v, l = u ++ p :: c :: v → (P.area p).stop = start →
      start + size = (P.nodes c).start → v = [] := by
    intro u p c v hl hp _
    have hlt : (P.area p).stop < (P.area m).start := hbefore p (by rw [hl]; simp) hp.le
    omega
  intro hcode
  obtain ⟨P'', err, u, v, hcode', rfl, hu, hv, hcase⟩ :=
    h.list.addFree h.bounded hb h0 hfresh hfirst hgap
  rw [hcode] at hcode'
  cases hcode'
  obtain ⟨-, hfits, -⟩ := hcase.resolve_left fun hc => hc.1 rfl
  obtain ⟨hpu, hpv, -⟩ := List.pairwise_append.1 hpw
  have hmu : m ∈ u := by
    refine (List.mem_append.1 hm).resolve_right fun hmv => ?_
    obtain ⟨c, v, rfl⟩ := List.exists_cons_of_ne_nil (List.ne_nil_of_mem hmv)
    have hc : start < (P.nodes c).start := hv c rfl
    rcases List.mem_cons.1 hmv with rfl | hmv
    · exact absurd hlo (Nat.not_le.2 hc)
    · have hlt : (P.area c).stop < (P.area m).start := (List.pairwise_cons.1 hpv).1 m hmv
      simp only [Area.stop, area] at hlt hlo
      omega
  -- the last area that starts by `start` ends by it, and is not before `m`
  obtain ⟨u, p, rfl⟩ := (List.eq_nil_or_concat u).resolve_left (List.ne_nil_of_mem hmu)
  rw [List.concat_eq_append] at *
  have hstop : (P.area p).stop ≤ start := hfits.1 (P.area p) (by simp)
  have hlt : (P.area p).stop < (P.area m).start := hbefore p (by simp) hstop
  have hple : (P.area m).start ≤ (P.area p).start := by
    rcases List.mem_append.1 hmu with hmu | hmu
    · have : (P.area m).stop < (P.area p).start :=
        (List.pairwise_append.1 hpu).2.2 m hmu p (by simp)
      unfold Area.stop at this
      omega
    · rw [List.mem_singleton.1 hmu]
  unfold Area.stop at hlt
  omega

/-! ## `memalloc_init` -/

/-- An area past the end of the last one goes last. -/
theorem PageList.append (h : P.PageList l) {limit : ℕ} (hlast : ∀ a ∈ l.map P.area, a.stop < start)
    (hle : start ≤ limit) (hb : limit < 2 ^ 32) (hpos : l = [] → start < limit) (h0 : node ≠ 0)
    (hfresh : node ∉ P.alive) : ∃ P' l', P.addFree start (limit - start) node = some (P', .noErr)
      ∧ P'.PageList l' ∧ l'.map P'.area = l.map P.area ++ [⟨start, limit - start⟩] := by
  have hend : start + (limit - start) < 2 ^ 32 := by omega
  have hstop : ∀ n ∈ l, (P.area n).stop < start := fun n hn => hlast _ (List.mem_map_of_mem hn)
  have hstart : ∀ n ∈ l, (P.nodes n).start < start := by
    intro n hn
    have := hstop n hn
    simp only [Area.stop, area] at this
    omega
  obtain ⟨P', err, u, v, hcode, rfl, hu, hv, hcase⟩ := h.list.addFree h.bounded hend h0 hfresh
    (fun c hc => .inl (hstart c (List.mem_of_mem_head? hc)).le)
    (fun u p c v hl hp _ => absurd hp (hstop p (by rw [hl]; simp)).ne)
  obtain rfl : v = [] := by
    rcases v with _ | ⟨c, v⟩
    · rfl
    · have h1 := hv c rfl
      have h2 := hstart c (by simp)
      omega
  rw [List.append_nil] at *
  have hfits : Fits (u.map P.area) ⟨start, limit - start⟩ [] :=
    ⟨fun p hp => (hlast p (List.mem_of_getLast? hp)).le, by simp⟩
  have hadd : addArea (u.map P.area) ⟨start, limit - start⟩ []
      = u.map P.area ++ [⟨start, limit - start⟩] := by
    unfold addArea joinNext
    rcases List.eq_nil_or_concat u with rfl | ⟨u, p, rfl⟩
    · rfl
    · have := (hstop p (by simp)).ne
      rw [List.concat_eq_append, List.map_append, List.map_singleton, joinPrev_concat, if_neg this]
      simp
  obtain ⟨rfl, -, l', hl', harea⟩ := hcase.resolve_left fun hc => hc.2.2 hfits
  rw [List.map_nil, hadd] at harea
  refine ⟨P', l', hcode, ⟨hl', ?_, fun n hn => ?_, fun a ha => ?_⟩, harea⟩
  · rw [harea, ← hadd]
    refine (addArea_spec ?_ hfits).1
    rw [List.append_nil]
    exact h.apart
  · have hmem : P'.area n ∈ l'.map P'.area := List.mem_map_of_mem hn
    rw [harea] at hmem
    rcases List.mem_append.1 hmem with hmem | hmem
    · have := hlast _ hmem
      omega
    · rw [List.mem_singleton.1 hmem]
      show start + (limit - start) < 2 ^ 32
      omega
  · rw [harea] at ha
    rcases u with _ | ⟨b, u⟩
    · obtain rfl : (⟨start, limit - start⟩ : Area) = a := Option.some_inj.1 ha
      have := hpos rfl
      show 0 < limit - start
      omega
    · exact h.first a ha

/-- The first base that `p` holds of, or the default. -/
theorem find_base (p : MemRange → Prop) [DecidablePred p] (m : List MemRange) (d : ℕ) :
    ((m.find? fun r => p r).map MemRange.base).getD d = d
      ∨ ∃ r ∈ m, p r ∧ ((m.find? fun r => p r).map MemRange.base).getD d = r.base := by
  rcases hf : m.find? (fun r => p r) with _ | r
  · exact .inl rfl
  · exact .inr ⟨r, List.mem_of_find?_eq_some hf, by simpa using List.find?_some hf, rfl⟩

theorem nextLimit_cases (m : List MemRange) (start : ℕ) : nextLimit m start = archMaxAddress
    ∨ ∃ r ∈ m, start < r.base ∧ nextLimit m start = r.base := by
  rcases find_base (fun r => r.type ≠ 1 ∧ start < r.base) m archMaxAddress with h | ⟨r, hr, hp, h⟩
  · exact .inl h
  · exact .inr ⟨r, hr, hp.2, h⟩

/-- The limit is an address, and past the start unless it is the last one. -/
theorem nextLimit_bounds {m : List MemRange} {start : ℕ} (hm : ∀ r ∈ m, r.base < 2 ^ 32)
    (hlt : start < 2 ^ 32) : start ≤ nextLimit m start ∧ nextLimit m start < 2 ^ 32
      ∧ (nextLimit m start ≠ archMaxAddress → start < nextLimit m start) := by
  rcases nextLimit_cases m start with he | ⟨r, hr, hlt, he⟩
  · rw [he]
    exact ⟨Nat.le_of_lt_succ hlt, by decide, fun h => absurd rfl h⟩
  · rw [he]
    exact ⟨hlt.le, hm r hr, fun _ => hlt⟩

/-- The next start is past the limit, or is what it was. -/
theorem nextStart_cases (m : List MemRange) (limit next : ℕ) : nextStart m limit next = next
    ∨ ∃ r ∈ m, limit < r.base ∧ nextStart m limit next = r.base := by
  rcases find_base (fun r => r.type = 1 ∧ limit < r.base) m next with h | ⟨r, hr, hp, h⟩
  · exact .inl h
  · exact .inr ⟨r, hr, hp.2, h⟩

/-- The nodes alive are from rounds before. -/
def FromRound (kmalloc : ℕ → ℕ) (fuel : ℕ) (P : Pool) : Prop :=
  ∀ x ∈ P.alive, ∃ j, fuel ≤ j ∧ x = kmalloc j

section Rounds

variable {m : List MemRange} {kmalloc : ℕ → ℕ} {fuel next t : ℕ}

theorem FromRound.mono (h : FromRound kmalloc (fuel + 1) P) : FromRound kmalloc fuel P := by
  intro x hx
  obtain ⟨j, hj, hxj⟩ := h x hx
  exact ⟨j, Nat.le_of_succ_le hj, hxj⟩

theorem FromRound.fresh (h : FromRound kmalloc (fuel + 1) P) (hk : Function.Injective kmalloc) :
    kmalloc fuel ∉ P.alive := by
  intro hmem
  obtain ⟨j, hj, heq⟩ := h _ hmem
  rw [← hk heq] at hj
  exact absurd hj (Nat.not_le.2 (Nat.lt_succ_self _))

theorem FromRound.addFree {size : ℕ} {err : PoolErr} (h : FromRound kmalloc (fuel + 1) P)
    (hadd : P.addFree start size (kmalloc fuel) = some (P', err)) : FromRound kmalloc fuel P' := by
  intro x hx
  rcases addFree_alive hadd x hx with rfl | hx
  · exact ⟨fuel, le_rfl, rfl⟩
  · exact h.mono x hx

/-- A round that starts past the end of the last area adds an area and goes on. -/
theorem PageList.round (h : P.PageList l) (fuel next : ℕ) (hm : ∀ r ∈ m, r.base < 2 ^ 32)
    (hk : Function.Injective kmalloc) (hk0 : ∀ i, kmalloc i ≠ 0)
    (halive : FromRound kmalloc (fuel + 1) P) (ht0 : t ≠ 0) (ht : t < 2 ^ 32)
    (hlast : ∀ a ∈ l.map P.area, a.stop < t) (hpos : l = [] → t < archMaxAddress) :
    ∃ P₁ l₁, P₁.PageList l₁ ∧ l₁.map P₁.area = l.map P.area ++ [⟨t, nextLimit m t - t⟩]
      ∧ FromRound kmalloc fuel P₁ ∧ P.initPages m kmalloc (fuel + 1) t next
        = P₁.initPages m kmalloc fuel
          (if nextLimit m t = archMaxAddress then 0 else nextStart m (nextLimit m t) next)
          (nextStart m (nextLimit m t) next) := by
  obtain ⟨hle, hb, hne⟩ := nextLimit_bounds hm ht
  obtain ⟨P₁, l₁, hadd, h₁, harea⟩ := h.append hlast hle hb (fun hl => by
    by_cases he : nextLimit m t = archMaxAddress
    · rw [he]
      exact hpos hl
    · exact hne he) (hk0 fuel) (halive.fresh hk)
  refine ⟨P₁, l₁, h₁, harea, halive.addFree hadd, ?_⟩
  rw [initPages, if_neg ht0]
  simp only [sub32_of_le hle hb, hadd]

/-- A round that starts inside an area again is refused. -/
theorem PageList.refusedRound (h : P.PageList l) (hm : ∀ r ∈ m, r.base < 2 ^ 32)
    (hk : Function.Injective kmalloc) (hk0 : ∀ i, kmalloc i ≠ 0)
    (halive : FromRound kmalloc fuel P) (ht0 : t ≠ 0) (ht : t < 2 ^ 32) {a : Area}
    (ha : a ∈ l.map P.area) (hlo : a.start ≤ t) (hhi : t < a.stop) :
    P.initPages m kmalloc fuel t next ≠ some (P', .noErr) := by
  rcases fuel with _ | fuel
  · exact fun h => by cases h
  obtain ⟨hle, hb, -⟩ := nextLimit_bounds hm ht
  have hrefuse : ∀ Q, P.addFree t (nextLimit m t - t) (kmalloc fuel) ≠ some (Q, .noErr) := fun Q =>
    h.refuses (by omega) (hk0 fuel) (halive.fresh hk) ha hlo hhi
  intro hr
  rw [initPages, if_neg ht0] at hr
  simp only [sub32_of_le hle hb] at hr
  exact hrefuse P' hr

end Rounds

/-- What the loop has at its head: nothing more to do, an area to add past the last one, or one that
starts inside the last one again. -/
def PageHead (A : List Area) (start next : ℕ) : Prop :=
  start = 0 ∨ ((∀ a ∈ A, a.stop < start) ∧ (next = 0 ∨ next = start) ∧ (A = [] → start < archMaxAddress))
    ∨ ∃ a ∈ A, a.start ≤ start ∧ start < a.stop

/-- The loop, when it ends without an error, leaves a list of pages. -/
theorem initPages_spec {m : List MemRange} {kmalloc : ℕ → ℕ} (hm : ∀ r ∈ m, r.base < 2 ^ 32)
    (hk : Function.Injective kmalloc) (hk0 : ∀ i, kmalloc i ≠ 0) : ∀ (fuel start next : ℕ) {P : Pool}
    {l : List ℕ}, P.PageList l → FromRound kmalloc fuel P → start < 2 ^ 32 →
    PageHead (l.map P.area) start next → P.initPages m kmalloc fuel start next = some (P', .noErr) →
    ∃ l', P'.PageList l'
  | 0, _, _, _, _, _, _, _, _, hr => by cases hr
  | fuel + 1, start, next, P, l, h, halive, hlt, hhead, hr => by
    by_cases hs : start = 0
    · rw [initPages, if_pos hs] at hr
      cases hr
      exact ⟨l, h⟩
    obtain ⟨hle, -, hne⟩ := nextLimit_bounds hm hlt
    rcases hhead with h1 | ⟨hlast, hnext, hpos⟩ | ⟨a, ha, hlo, hhi⟩
    · exact absurd h1 hs
    · obtain ⟨P₁, l₁, h₁, harea, halive₁, hround⟩ := h.round fuel next hm hk hk0 halive hs hlt hlast
        fun hl => hpos (by rw [hl]; rfl)
      rw [hround] at hr
      set limit := nextLimit m start
      -- an area that has been added ends by the limit
      have hstop : ∀ a ∈ l₁.map P₁.area, a.stop ≤ limit := by
        intro a ha
        rw [harea] at ha
        rcases List.mem_append.1 ha with ha | ha
        · exact ((hlast a ha).trans_le hle).le
        · rw [List.mem_singleton.1 ha]
          show start + (limit - start) ≤ limit
          omega
      have hnil : l₁.map P₁.area ≠ [] := by
        rw [harea]
        simp
      by_cases he : limit = archMaxAddress
      · rw [if_pos he] at hr
        exact initPages_spec hm hk hk0 fuel _ _ h₁ halive₁ (by decide) (.inl rfl) hr
      · rw [if_neg he] at hr
        rcases nextStart_cases m limit next with hst | ⟨r, hrm, hlt', hst⟩
        · rw [hst] at hr
          rcases hnext with rfl | rfl
          · exact initPages_spec hm hk hk0 fuel _ _ h₁ halive₁ (by decide) (.inl rfl) hr
          · refine initPages_spec hm hk hk0 fuel _ _ h₁ halive₁ hlt (.inr (.inr ?_)) hr
            refine ⟨⟨next, limit - next⟩, by rw [harea]; simp, le_rfl, ?_⟩
            have := hne he
            show next < next + (limit - next)
            omega
        · rw [hst] at hr
          refine initPages_spec hm hk hk0 fuel _ _ h₁ halive₁ (hm r hrm) (.inr (.inl ?_)) hr
          exact ⟨fun a ha => (hstop a ha).trans_lt hlt', .inr rfl, fun h => absurd h hnil⟩
    · exact absurd hr (h.refusedRound hm hk hk0 halive hs hlt ha hlo hhi)

theorem PageList.empty : empty.PageList [] where
  list := ⟨Dll.nil, by simp⟩
  apart := .nil
  bounded := by simp [Bounded]
  first := by simp

/-- What `memalloc_init` leaves is a list of pages. -/
theorem memallocInit_pages {K : KernelLayout} {m : List MemRange} {kmalloc : ℕ → ℕ} {fuel : ℕ}
    {F : Pool} (hm : ∀ r ∈ m, r.base < 2 ^ 32) (hk : Function.Injective kmalloc)
    (hk0 : ∀ i, kmalloc i ≠ 0) (hphys : K.kernelStartPhys < kernelMemOffset)
    (h : memallocInit K m kmalloc fuel = some (F, P, .noErr)) : ∃ l, P.PageList l := by
  unfold memallocInit at h
  obtain ⟨⟨F', err⟩, -, h⟩ := Option.bind_eq_some_iff.1 h
  dsimp only at h
  split_ifs at h with herr
  · cases h
    exact absurd rfl herr
  · obtain ⟨⟨P', err'⟩, hp, heq⟩ := Option.map_eq_some_iff.1 h
    cases heq
    refine initPages_spec hm hk hk0 fuel _ _ PageList.empty (fun x hx => by cases hx)
      (hphys.trans (by decide)) ?_ hp
    by_cases h0 : K.kernelStartPhys = 0
    · exact .inl h0
    · have hmax : K.kernelStartPhys < archMaxAddress := hphys.trans (by decide)
      exact .inr (.inl ⟨by simp, .inl rfl, fun _ => hmax⟩)

/-! ## A block taken and given back -/

theorem mul32_comm (a b : ℕ) : mul32 a b = mul32 b a := by
  unfold mul32
  rw [Nat.mul_comm]

/-- The first area with the bytes of a count of pages, which `memalloc_alloc_kpages` takes them
from. -/
def firstFit (P : Pool) (count : ℕ) : Option Area :=
  P.areas.find? fun a => mul32 kernelPageSize count ≤ a.size

theorem PageList.firstFit_eq (h : P.PageList l) {u v : List ℕ} {n count : ℕ} (hl : l = u ++ n :: v)
    (hn : mul32 kernelPageSize count ≤ (P.nodes n).size)
    (hu : ∀ m ∈ u, (P.nodes m).size < mul32 kernelPageSize count) :
    P.firstFit count = some (P.area n) := by
  unfold firstFit
  rw [h.areas_eq, hl]
  exact find?_area hn hu

/-- A block of some bytes goes back. -/
theorem PageList.giveBack (h : P.PageList l) {u v l' : List ℕ} {n need : ℕ} (hl : l = u ++ n :: v)
    (hn : need ≤ (P.nodes n).size) (hpos : 0 < need) (L' : P'.PoolList l')
    (harea : l'.map P'.area = takeArea (u.map P.area) (P.area n) (v.map P.area) need)
    (h0 : node ≠ 0) (hfresh : node ∉ P'.alive) :
    ∃ P'', P'.addFree (P.nodes n).start need node = some (P'', .noErr) ∧ P''.areas = P.areas := by
  have hap : Apart (u.map P.area ++ P.area n :: v.map P.area) := by
    have := h.apart
    rwa [hl, List.map_append, List.map_cons] at this
  have hsize : need ≤ (P.area n).size := hn
  have hend : (P.nodes n).start + need < 2 ^ 32 := by
    have := h.bounded n (by rw [hl]; simp)
    simp only [Area.stop, area] at this hsize
    omega
  -- an area that is left ends before the block or starts after it
  have hleft : ∀ x ∈ l', (P'.area x).stop < (P.nodes n).start
      ∨ (P.nodes n).start + need ≤ (P'.area x).start := by
    intro x hx
    refine mem_takeArea hap hsize ?_
    rw [← harea]
    exact List.mem_map_of_mem hx
  have hbound : P'.Bounded l' := by
    intro x hx
    refine forall_mem_takeArea (Q := fun b => b.stop < 2 ^ 32) (fun b hb => ?_) (fun _ hb => ?_)
      (P'.area x) (by rw [← harea]; exact List.mem_map_of_mem hx)
    · rw [← List.map_cons, ← List.map_append, ← hl] at hb
      obtain ⟨y, hy, rfl⟩ := List.mem_map.1 hb
      exact h.bounded y hy
    · simp only [Area.stop] at hb hsize ⊢
      omega
  obtain ⟨P'', err, u', v', hcode, rfl, hu', hv', hcase⟩ := L'.addFree hbound hend h0 hfresh
    (fun c hc => by
      have := hleft c (List.mem_of_mem_head? hc)
      simp only [Area.stop, area] at this
      omega)
    (fun u p c v hl' hp _ => by
      have := hleft p (by rw [hl']; simp)
      unfold Area.stop at this hp
      omega)
  have hstart : ∀ b ∈ u'.map P'.area, b.start ≤ (P.area n).start := by
    intro b hb
    obtain ⟨x, hx, rfl⟩ := List.mem_map.1 hb
    exact hu' x hx
  have hafter : ∀ b ∈ (v'.map P'.area).head?, (P.area n).start < b.start := by
    intro b hb
    rw [List.head?_map, Option.mem_map] at hb
    obtain ⟨x, hx, rfl⟩ := hb
    exact hv' x hx
  have hfits : Fits (u'.map P'.area) ⟨(P.nodes n).start, need⟩ (v'.map P'.area) := by
    refine ⟨fun b hb => ?_, fun b hb => ?_⟩
    · obtain ⟨x, hx, rfl⟩ := List.mem_map.1 (List.mem_of_getLast? hb)
      have h1 := hu' x hx
      have h2 := hleft x (by simp [hx])
      simp only [Area.stop, area] at h2 ⊢
      omega
    · rw [List.head?_map, Option.mem_map] at hb
      obtain ⟨x, hx, rfl⟩ := hb
      have h1 := hv' x hx
      have h2 := hleft x (by simp [List.mem_of_mem_head? hx])
      simp only [Area.stop, area] at h2 ⊢
      omega
  obtain ⟨rfl, -, k, hk, hkarea⟩ := hcase.resolve_left fun hc => hc.2.2 hfits
  refine ⟨P'', hcode, ?_⟩
  rw [areas, hk.areaList_eq, hkarea, h.areas_eq, hl, List.map_append, List.map_cons]
  exact addArea_takeArea hap hpos hsize (by rw [← harea, List.map_append]) hstart hafter

/-- No byte is taken, and giving none back is refused. -/
theorem PageList.giveNothing (h : P.PageList l) {u v l' : List ℕ} {n : ℕ} (hl : l = u ++ n :: v)
    (hu : ∀ m ∈ u, (P.nodes m).size < 0) (L' : P'.PoolList l')
    (harea : l'.map P'.area = takeArea (u.map P.area) (P.area n) (v.map P.area) 0)
    (h0 : node ≠ 0) (hfresh : node ∉ P'.alive) (P'' : Pool) :
    P'.addFree (P.nodes n).start 0 node ≠ some (P'', .noErr) := by
  obtain rfl : u = [] := by
    rcases u with _ | ⟨m, u⟩
    · rfl
    · exact absurd (hu m (by simp)) (Nat.not_lt_zero _)
  have hpos : 0 < (P.area n).size := h.first (P.area n) (by rw [hl]; rfl)
  have hsame : l'.map P'.area = l.map P.area := by
    rw [harea, takeArea, if_neg hpos.ne', hl]
    rfl
  have hmem : P.area n ∈ l'.map P'.area := by
    rw [hsame, hl]
    simp
  have h' : P'.PageList l' := by
    refine ⟨L', by rw [hsame]; exact h.apart, fun x hx => ?_, by rw [hsame]; exact h.first⟩
    have hx' : P'.area x ∈ l.map P.area := by
      rw [← hsame]
      exact List.mem_map_of_mem hx
    obtain ⟨y, hy, hxy⟩ := List.mem_map.1 hx'
    rw [← hxy]
    exact h.bounded y hy
  have hend := h.bounded n (by rw [hl]; simp)
  refine h'.refuses ?_ h0 hfresh hmem le_rfl ?_
  · simp only [Area.stop, area] at hend
    omega
  · show (P.area n).start < (P.area n).start + (P.area n).size
    omega

/-- Pages that were allocated from a pool of `memalloc_init` are taken back, and the pool is as it
was, exactly when they are some bytes and the first area that has them starts where
`memalloc_free_kpages` takes pages. -/
theorem page_pool_round_trip_iff {K : KernelLayout} {m : List MemRange} {kmalloc : ℕ → ℕ}
    {fuel count a : ℕ} {F : Pool} (hm : ∀ r ∈ m, r.base < 2 ^ 32) (hk : Function.Injective kmalloc)
    (hk0 : ∀ i, kmalloc i ≠ 0) (hphys : K.kernelStartPhys < kernelMemOffset)
    (hinit : memallocInit K m kmalloc fuel = some (F, P, .noErr))
    (halloc : P.allocKpages count = some (P', a, .noErr)) (h0 : node ≠ 0) (hfresh : node ∉ P'.alive) :
    (∃ P'', freeKpages K P' a count node = some (P'', .noErr) ∧ P''.areas = P.areas)
      ↔ mul32 kernelPageSize count ≠ 0
        ∧ ∃ A, P.firstFit count = some A ∧ kpagesGuard K ≤ A.start := by
  obtain ⟨l, h⟩ := memallocInit_pages hm hk hk0 hphys hinit
  rcases h.list.getBlock_first h.bounded.words rfl with ⟨hcode, -⟩ |
    ⟨u, n, v, l', Q, hcode, hl, hn, hu, hl', harea⟩
  · rw [allocKpages, hcode] at halloc
    cases halloc
  rw [allocKpages, hcode] at halloc
  cases halloc
  rw [h.firstFit_eq hl hn hu]
  unfold freeKpages
  rw [mul32_comm count]
  by_cases hguard : (P.nodes n).start < kpagesGuard K
  · rw [if_pos hguard]
    refine iff_of_false ?_ ?_
    · rintro ⟨P'', hP'', -⟩
      cases hP''
    · rintro ⟨-, A, hA, hle⟩
      cases hA
      exact absurd hle (Nat.not_le.2 hguard)
  rw [if_neg hguard]
  have hle : kpagesGuard K ≤ (P.area n).start := Nat.le_of_not_lt hguard
  by_cases hneed : mul32 kernelPageSize count = 0
  · rw [hneed] at hu harea ⊢
    refine iff_of_false ?_ fun hc => hc.1 rfl
    rintro ⟨P'', hP'', -⟩
    exact h.giveNothing hl hu hl' harea h0 hfresh P'' hP''
  · exact iff_of_true (h.giveBack hl hn (Nat.pos_of_ne_zero hneed) hl' harea h0 hfresh)
      ⟨hneed, P.area n, rfl, hle⟩

/-- A page at 1 MB, then pages from `0xD0000000` on: two pages come from there and go back. -/
theorem page_pool_round_trip_high : ∃ F P P' a,
    memallocInit ⟨0xE0200000, 0x100000⟩ [⟨0x101000, 0x200000, 2⟩, ⟨0xD0000000, 0xFFFF0000, 1⟩]
      (fun i => i + 1) 4 = some (F, P, .noErr)
    ∧ P.allocKpages 2 = some (P', a, .noErr)
    ∧ ∃ P'', freeKpages ⟨0xE0200000, 0x100000⟩ P' a 2 9 = some (P'', .noErr) ∧ P''.areas = P.areas := by
  have hrun : ((memallocInit ⟨0xE0200000, 0x100000⟩
      [⟨0x101000, 0x200000, 2⟩, ⟨0xD0000000, 0xFFFF0000, 1⟩] (fun i => i + 1) 4).bind fun r =>
        (r.2.1.allocKpages 2).map fun q => (r.2.2, q.2.2, q.1.alive, (r.2.1.firstFit 2).map Area.start))
      = some (.noErr, .noErr, [3, 4], some 0xD0000000) := by decide +kernel
  obtain ⟨⟨F, P, err⟩, hinit, hrun⟩ := Option.bind_eq_some_iff.1 hrun
  obtain ⟨⟨P', a, err'⟩, halloc, hrun⟩ := Option.map_eq_some_iff.1 hrun
  simp only [Prod.mk.injEq] at hrun
  obtain ⟨rfl, rfl, halive, hfit⟩ := hrun
  obtain ⟨A, hA, hstart⟩ := Option.map_eq_some_iff.1 hfit
  refine ⟨F, P, P', a, hinit, halloc, (page_pool_round_trip_iff (by decide) (add_left_injective 1)
    (by simp) (by decide) hinit halloc (by decide) (by rw [halive]; decide)).2 ⟨?_, A, hA, ?_⟩⟩
  · decide +kernel
  · rw [hstart]
    decide +kernel

/-- A PC with 128 MB: the pages are those from 1 MB to the first that are not free, and the page
allocated from them is not taken back. -/
theorem page_pool_no_round_trip : ∃ F P P' a,
    memallocInit ⟨0xE0200000, 0x100000⟩ [⟨0, 0x9FC00, 1⟩, ⟨0x9FC00, 0xA0000, 2⟩,
      ⟨0xF0000, 0x100000, 2⟩, ⟨0x100000, 0x7FE0000, 1⟩, ⟨0x7FE0000, 0x8000000, 2⟩]
      (fun i => i + 1) 7 = some (F, P, .noErr)
    ∧ P.allocKpages 1 = some (P', a, .noErr) ∧ 9 ∉ P'.alive
    ∧ freeKpages ⟨0xE0200000, 0x100000⟩ P' a 1 9 = some (P', .unauthorizedAction) := by
  have hrun : ((memallocInit ⟨0xE0200000, 0x100000⟩ [⟨0, 0x9FC00, 1⟩, ⟨0x9FC00, 0xA0000, 2⟩,
      ⟨0xF0000, 0x100000, 2⟩, ⟨0x100000, 0x7FE0000, 1⟩, ⟨0x7FE0000, 0x8000000, 2⟩]
      (fun i => i + 1) 7).bind fun r =>
        (r.2.1.allocKpages 1).map fun q => (r.2.2, q.2.2, q.1.alive, q.2.1))
      = some (.noErr, .noErr, [7], 0x100000) := by decide +kernel
  obtain ⟨⟨F, P, err⟩, hinit, hrun⟩ := Option.bind_eq_some_iff.1 hrun
  obtain ⟨⟨P', a, err'⟩, halloc, hrun⟩ := Option.map_eq_some_iff.1 hrun
  simp only [Prod.mk.injEq] at hrun
  obtain ⟨rfl, rfl, halive, rfl⟩ := hrun
  have hguard : 0x100000 < kpagesGuard ⟨0xE0200000, 0x100000⟩ := by decide +kernel
  refine ⟨F, P, P', 0x100000, hinit, halloc, by rw [halive]; decide, ?_⟩
  rw [freeKpages, if_pos hguard]

end Pool

end RTLKIM

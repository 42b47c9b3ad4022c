import RTLKIM.Proofs.FramePool
import RTLKIM.Proofs.PagePool

/-!
# When the loop over the pages ends

Each round adds the pages up to the next memory that is not free and goes on from the free range
after it. On a sorted map the areas stay clear of that memory. When no free range is left the next
start is the one of the last round, or 0 in the first: after the first round the pages are added
again and refused, unless the round before went up to the last address.
-/

namespace RTLKIM

namespace Pool

variable {K : KernelLayout} {m : List MemRange} {kmalloc : ℕ → ℕ} {P P' : Pool} {l : List ℕ}
  {S t fuel next : ℕ}

/-- The ranges are in order, and none runs into the next. -/
structure MapSorted (m : List MemRange) : Prop where
  range : ∀ r ∈ m, r.base ≤ r.limit ∧ r.limit < 2 ^ 32
  sorted : m.Pairwise fun a b => a.base < b.base ∧ a.limit ≤ b.base

namespace MapSorted

variable (hm : MapSorted m)

include hm

theorem base_lt {r : MemRange} (hr : r ∈ m) : r.base < 2 ^ 32 :=
  (hm.range r hr).1.trans_lt (hm.range r hr).2

/-- Two ranges are one, or one ends before the other starts. -/
theorem cases {a b : MemRange} (ha : a ∈ m) (hb : b ∈ m) : a = b
    ∨ (a.base < b.base ∧ a.limit ≤ b.base) ∨ (b.base < a.base ∧ b.limit ≤ a.base) := by
  by_cases hab : a = b
  · exact .inl hab
  have hpw : m.Pairwise fun a b =>
      (a.base < b.base ∧ a.limit ≤ b.base) ∨ (b.base < a.base ∧ b.limit ≤ a.base) :=
    hm.sorted.imp .inl
  have : Std.Symm fun a b : MemRange =>
      (a.base < b.base ∧ a.limit ≤ b.base) ∨ (b.base < a.base ∧ b.limit ≤ a.base) :=
    ⟨fun _ _ => Or.symm⟩
  exact .inr (hpw.forall ha hb hab)

/-- The first base that `p` holds of is the least. -/
theorem find_base (p : MemRange → Prop) [DecidablePred p] (d : ℕ) :
    ((∀ r ∈ m, ¬ p r) ∧ ((m.find? fun r => p r).map MemRange.base).getD d = d)
      ∨ ∃ r ∈ m, p r ∧ ((m.find? fun r => p r).map MemRange.base).getD d = r.base
        ∧ ∀ q ∈ m, p q → r.base ≤ q.base := by
  rcases hf : m.find? (fun r => p r) with _ | r
  · refine .inl ⟨fun r hr hp => ?_, rfl⟩
    exact absurd (decide_eq_true hp) (List.find?_eq_none.1 hf r hr)
  obtain ⟨hp, u, v, rfl, hu⟩ := List.find?_eq_some_iff_append.1 hf
  refine .inr ⟨r, by simp, of_decide_eq_true hp, rfl, fun q hq hpq => ?_⟩
  rcases List.mem_append.1 hq with hq | hq
  · exact absurd (decide_eq_true hpq) (by simpa using hu q hq)
  · rcases List.mem_cons.1 hq with rfl | hq
    · exact le_rfl
    · exact ((List.pairwise_cons.1 (List.pairwise_append.1 hm.sorted).2.1).1 q hq).1.le

/-- The limit is the last address, or the least base past `t` of memory that is not free. -/
theorem nextLimit_eq (t : ℕ) :
    ((∀ q ∈ m, q.type ≠ 1 → q.base ≤ t) ∧ nextLimit m t = archMaxAddress)
      ∨ ∃ q ∈ m, q.type ≠ 1 ∧ t < q.base ∧ nextLimit m t = q.base
        ∧ ∀ q' ∈ m, q'.type ≠ 1 → t < q'.base → q.base ≤ q'.base := by
  rcases hm.find_base (fun r => r.type ≠ 1 ∧ t < r.base) archMaxAddress with
    ⟨hnone, h⟩ | ⟨q, hq, ⟨h1, h2⟩, h, hmin⟩
  · exact .inl ⟨fun q hq h1 => Nat.le_of_not_lt fun h2 => hnone q hq ⟨h1, h2⟩, h⟩
  · exact .inr ⟨q, hq, h1, h2, h, fun q' hq' h1 h2 => hmin q' hq' ⟨h1, h2⟩⟩

theorem nextLimit_le {q : MemRange} (hq : q ∈ m) (htype : q.type ≠ 1) (ht : t < q.base) :
    nextLimit m t ≤ q.base := by
  rcases hm.nextLimit_eq t with ⟨hnone, -⟩ | ⟨r, -, -, -, h, hmin⟩
  · exact absurd ht (Nat.not_lt.2 (hnone q hq htype))
  · rw [h]
    exact hmin q hq htype ht

/-- The next start is what it was, when no free range starts past the limit, or the least base of
those that do. -/
theorem nextStart_eq (limit next : ℕ) :
    ((∀ f ∈ m, f.type = 1 → f.base ≤ limit) ∧ nextStart m limit next = next)
      ∨ ∃ f ∈ m, f.type = 1 ∧ limit < f.base ∧ nextStart m limit next = f.base
        ∧ ∀ f' ∈ m, f'.type = 1 → limit < f'.base → f.base ≤ f'.base := by
  rcases hm.find_base (fun r => r.type = 1 ∧ limit < r.base) next with
    ⟨hnone, h⟩ | ⟨f, hf, ⟨h1, h2⟩, h, hmin⟩
  · exact .inl ⟨fun f hf h1 => Nat.le_of_not_lt fun h2 => hnone f hf ⟨h1, h2⟩, h⟩
  · exact .inr ⟨f, hf, h1, h2, h, fun f' hf' h1 h2 => hmin f' hf' ⟨h1, h2⟩⟩

end MapSorted

/-! ## The rounds after the first -/

/-- The areas have no byte of a range past `S` that is not free. -/
def Avoids (m : List MemRange) (S : ℕ) (A : List Area) : Prop :=
  ∀ r ∈ m, r.type ≠ 1 → S < r.base → Disjoint r.bytes (covered A)

/-- The area of a round has none, at the start or from a free range on. -/
theorem MapSorted.avoids (hm : MapSorted m) (hS : S ≤ t)
    (ht : t = S ∨ ∃ f ∈ m, f.type = 1 ∧ f.base = t) : Avoids m S [⟨t, nextLimit m t - t⟩] := by
  intro r hr htype hrS
  rw [covered_cons, covered_nil, Set.union_empty]
  refine Set.disjoint_left.2 fun x hx hxt => ?_
  simp only [MemRange.bytes, Area.bytes, Area.stop, Set.mem_Ico] at hx hxt
  by_cases hlt : t < r.base
  · have := hm.nextLimit_le hr htype hlt
    omega
  · rcases ht with rfl | ⟨f, hf, hf1, rfl⟩
    · exact hlt hrS
    · rcases hm.cases hr hf with rfl | ⟨-, h⟩ | ⟨h, -⟩
      · exact htype hf1
      · omega
      · exact hlt h

theorem Avoids.append {A : List Area} {a : Area} (hA : Avoids m S A) (ha : Avoids m S [a]) :
    Avoids m S (A ++ [a]) := by
  intro r hr htype hrS
  rw [covered_append, Set.disjoint_union_right]
  exact ⟨hA r hr htype hrS, ha r hr htype hrS⟩

/-- A free range from `t` on has none that is not free after it, but at the last address. -/
def Ends (m : List MemRange) (t : ℕ) : Prop :=
  ∃ p ∈ m, p.type = 1 ∧ t ≤ p.base
    ∧ ∀ q ∈ m, q.type ≠ 1 → p.base < q.base → q.base = archMaxAddress

/-- That range is after the limit, if the limit is not the last address. -/
theorem MapSorted.ends_iff (hm : MapSorted m) (hlim : nextLimit m t ≠ archMaxAddress) :
    Ends m t ↔ Ends m (nextLimit m t + 1) := by
  obtain ⟨q, hq, htype, htq, h, -⟩ := (hm.nextLimit_eq t).resolve_left fun hn => hlim hn.2
  constructor
  · rintro ⟨p, hp, hp1, -, hlast⟩
    refine ⟨p, hp, hp1, Nat.succ_le_of_lt (Nat.lt_of_not_le fun hle => ?_), hlast⟩
    rw [h] at hlim hle
    rcases hle.lt_or_eq with hlt | heq
    · exact hlim (hlast q hq htype hlt)
    · rcases hm.cases hp hq with rfl | ⟨hlt, -⟩ | ⟨hlt, -⟩
      · exact htype hp1
      · omega
      · omega
  · rintro ⟨p, hp, hp1, hle, hlast⟩
    exact ⟨p, hp, hp1, by omega, hlast⟩

/-- When there is such a range the loop ends. -/
theorem initPages_ends (hm : MapSorted m) (hk : Function.Injective kmalloc)
    (hk0 : ∀ i, kmalloc i ≠ 0) (S t : ℕ) (hS : S ≤ t) {f : MemRange} (hf : f ∈ m)
    (hf1 : f.type = 1) (hft : f.base = t) (hends : Ends m t) : ∃ N, ∀ fuel ≥ N, ∀ {P : Pool}
      {l : List ℕ}, P.PageList l → FromRound kmalloc fuel P → l ≠ [] →
      (∀ a ∈ l.map P.area, a.stop < t) → Avoids m S (l.map P.area) →
      ∃ P', P.initPages m kmalloc fuel t t = some (P', .noErr) ∧ Avoids m S P'.areas := by
  have hbase : ∀ r ∈ m, r.base < 2 ^ 32 := fun r hr => hm.base_lt hr
  have ht : t < 2 ^ 32 := hft ▸ hbase f hf
  have ht0 : ∀ {P : Pool} {l : List ℕ}, l ≠ [] → (∀ a ∈ l.map P.area, a.stop < t) → t ≠ 0 := by
    intro P l hl hlast
    obtain ⟨n, l, rfl⟩ := List.exists_cons_of_ne_nil hl
    exact (Nat.zero_le _).trans_lt (hlast (P.area n) (by simp)) |>.ne'
  have havoids : Avoids m S [⟨t, nextLimit m t - t⟩] := hm.avoids hS (.inr ⟨f, hf, hf1, hft⟩)
  by_cases hlim : nextLimit m t = archMaxAddress
  · -- the last round
    refine ⟨2, fun fuel hfuel P l h halive hl hlast hA => ?_⟩
    obtain ⟨fuel, rfl⟩ := Nat.exists_eq_add_of_le' hfuel
    obtain ⟨P₁, l₁, h₁, harea, -, hrun⟩ := h.round (fuel + 1) t hbase hk hk0 halive
      (ht0 hl hlast) ht hlast fun he => absurd he hl
    refine ⟨P₁, ?_, ?_⟩
    · rw [hrun, if_pos hlim, initPages, if_pos rfl]
    · rw [h₁.areas_eq, harea]
      exact hA.append havoids
  · have hends' := (hm.ends_iff hlim).1 hends
    obtain ⟨hle, hb, hne⟩ := nextLimit_bounds hbase ht
    have hlt := hne hlim
    obtain ⟨f', hf', hf1', hlim', hnext, hmin⟩ := (hm.nextStart_eq (nextLimit m t) t).resolve_left
      (fun hn => by
        obtain ⟨p, hp, hp1, hp2, -⟩ := hends'
        have := hn.1 p hp hp1
        omega)
    have hends'' : Ends m f'.base := by
      obtain ⟨p, hp, hp1, hp2, hlast⟩ := hends'
      exact ⟨p, hp, hp1, hmin p hp hp1 hp2, hlast⟩
    obtain ⟨N, hN⟩ := initPages_ends hm hk hk0 S f'.base (by omega) hf' hf1' rfl hends''
    refine ⟨N + 1, fun fuel hfuel P l h halive hl hlast hA => ?_⟩
    obtain ⟨fuel, rfl⟩ := Nat.exists_eq_add_of_le' hfuel
    obtain ⟨P₁, l₁, h₁, harea, halive₁, hrun⟩ := h.round (fuel + N) t hbase hk hk0 halive
      (ht0 hl hlast) ht hlast fun he => absurd he hl
    have hstop : ∀ a ∈ l₁.map P₁.area, a.stop < f'.base := by
      intro a ha
      rw [harea] at ha
      rcases List.mem_append.1 ha with ha | ha
      · have := hlast a ha
        omega
      · rw [List.mem_singleton.1 ha]
        simp only [Area.stop]
        omega
    rw [show fuel + (N + 1) = fuel + N + 1 from rfl, hrun, if_neg hlim, hnext]
    refine hN (fuel + N) (Nat.le_add_left _ _) h₁ halive₁ ?_ hstop ?_
    · rintro rfl
      simp at harea
    · rw [harea]
      exact hA.append havoids
  termination_by 2 ^ 32 - t

/-- When there is none the loop does not end without an error. -/
theorem initPages_fails (hm : MapSorted m) (hk : Function.Injective kmalloc)
    (hk0 : ∀ i, kmalloc i ≠ 0) : ∀ (fuel t : ℕ) {f : MemRange} {P : Pool} {l : List ℕ}, f ∈ m →
    f.type = 1 → f.base = t → ¬ Ends m t → P.PageList l → FromRound kmalloc fuel P → l ≠ [] →
    (∀ a ∈ l.map P.area, a.stop < t) → P.initPages m kmalloc fuel t t ≠ some (P', .noErr)
  | 0, _, _, _, _, _, _, _, _, _, _, _, _ => fun h => by cases h
  | fuel + 1, t, f, P, l, hf, hf1, hft, hends, h, halive, hl, hlast => by
    have hbase : ∀ r ∈ m, r.base < 2 ^ 32 := fun r hr => hm.base_lt hr
    have ht : t < 2 ^ 32 := hft ▸ hbase f hf
    have ht0 : t ≠ 0 := by
      obtain ⟨n, l, rfl⟩ := List.exists_cons_of_ne_nil hl
      exact (Nat.zero_le _).trans_lt (hlast (P.area n) (by simp)) |>.ne'
    -- there is something after the free range it starts at
    have hlim : nextLimit m t ≠ archMaxAddress := by
      intro hlim
      refine hends ⟨f, hf, hf1, hft.ge, fun q hq htype hlt => ?_⟩
      have hle := hm.nextLimit_le hq htype (hft ▸ hlt)
      rw [hlim] at hle
      exact le_antisymm (Nat.le_of_lt_succ (hbase q hq)) hle
    rw [hm.ends_iff hlim] at hends
    have hlt := (nextLimit_bounds hbase ht).2.2 hlim
    obtain ⟨P₁, l₁, h₁, harea, halive₁, hrun⟩ := h.round fuel t hbase hk hk0 halive ht0 ht hlast
      fun he => absurd he hl
    rw [hrun, if_neg hlim]
    rcases hm.nextStart_eq (nextLimit m t) t with ⟨-, hnext⟩ | ⟨f', hf', hf1', hlim', hnext, hmin⟩
    · rw [hnext]
      refine h₁.refusedRound hbase hk hk0 halive₁ ht0 ht (a := ⟨t, nextLimit m t - t⟩)
        (by rw [harea]; simp) le_rfl ?_
      simp only [Area.stop]
      omega
    · rw [hnext]
      refine initPages_fails hm hk hk0 fuel f'.base hf' hf1' rfl ?_ h₁ halive₁ ?_ fun a ha => ?_
      · rintro ⟨p, hp, hp1, hp2, hp3⟩
        exact hends ⟨p, hp, hp1, hlim'.trans_le hp2, hp3⟩
      · rintro rfl
        simp at harea
      · rw [harea] at ha
        rcases List.mem_append.1 ha with ha | ha
        · have := hlast a ha
          omega
        · rw [List.mem_singleton.1 ha]
          simp only [Area.stop]
          omega

/-! ## The frames of a sorted map -/

/-- On a sorted map each range goes last, so the loop over the frames has no error. -/
theorem initFrames_sorted (K : KernelLayout) {kmalloc : ℕ → ℕ} (hk : Function.Injective kmalloc)
    (hk0 : ∀ i, kmalloc i ≠ 0) : ∀ (m : List MemRange) {P : Pool} {l : List ℕ}, MapSorted m →
      P.PoolList l → Apart (l.map P.area) → P.Bounded l →
      (∀ r ∈ m, ∀ a ∈ l.map P.area, a.stop ≤ r.base) → FromRound kmalloc m.length P →
      ∃ P', P.initFrames K kmalloc m = some (P', .noErr)
  | [], P, _, _, _, _, _, _, _ => ⟨P, rfl⟩
  | r :: m, P, l, hm, L, hap, hbd, hstop, halive => by
    have hm' : MapSorted m :=
      ⟨fun q hq => hm.range q (by simp [hq]), (List.pairwise_cons.1 hm.sorted).2⟩
    have hnext : ∀ q ∈ m, r.limit ≤ q.base := fun q hq =>
      ((List.pairwise_cons.1 hm.sorted).1 q hq).2
    obtain ⟨hle, hlim⟩ := hm.range r (by simp)
    rw [initFrames]
    by_cases hr : r.type = 1 ∧ sub32 K.kernelEnd kernelMemOffset < r.limit
    · set start := max (sub32 K.kernelEnd kernelMemOffset) r.base with hstart
      have hsl : start ≤ r.limit := max_le hr.2.le hle
      have hend : start + (r.limit - start) = r.limit := Nat.add_sub_cancel' hsl
      have hbefore : ∀ n ∈ l, (P.area n).stop ≤ start := fun n hn =>
        (hstop r (by simp) _ (List.mem_map_of_mem hn)).trans (le_max_right _ _)
      have hstarts : ∀ n ∈ l, (P.nodes n).start ≤ start := fun n hn =>
        (Nat.le_add_right _ _).trans (hbefore n hn)
      obtain ⟨P', err, u, v, hcode, rfl, hu, hv, hcase⟩ := L.addFree hbd (hend.trans_lt hlim)
        (hk0 m.length) (halive.fresh hk) (fun c hc => .inl (hstarts c (List.mem_of_mem_head? hc)))
        (fun u p c v hl hp hc => by
          have hpc := (List.pairwise_append.1 (List.pairwise_map.1 hap.pairwise |> (hl ▸ ·))).2.1
          have hlt : (P.area p).stop < (P.nodes c).start := (List.pairwise_cons.1 hpc).1 c (by simp)
          have := hstarts c (by rw [hl]; simp)
          omega)
      obtain rfl : v = [] := by
        rcases v with _ | ⟨c, v⟩
        · rfl
        · exact absurd (hv c rfl) (Nat.not_lt.2 (hstarts c (by simp)))
      rw [List.append_nil] at *
      have hfits : Fits (u.map P.area) ⟨start, r.limit - start⟩ ([].map P.area) := by
        refine ⟨fun a ha => ?_, by simp⟩
        obtain ⟨n, hn, rfl⟩ := List.mem_map.1 (List.mem_of_getLast? ha)
        exact hbefore n hn
      obtain ⟨rfl, -, l', L', harea⟩ := hcase.resolve_left fun hc => hc.2.2 hfits
      have hlimit : ∀ a ∈ l'.map P'.area, a.stop ≤ r.limit := by
        rw [harea]
        refine forall_mem_addArea (Q := fun a => a.stop ≤ r.limit) (fun a b hab _ hb => ?_)
          (fun a ha => ?_) hend.le
        · rwa [Area.join_stop hab]
        · rw [List.map_nil, List.append_nil] at ha
          exact (hstop r (by simp) a ha).trans hle
      have hap' : Apart (l'.map P'.area) := by
        rw [harea]
        refine (addArea_spec ?_ hfits).1
        rwa [List.map_nil, List.append_nil]
      obtain ⟨P'', hrun⟩ := initFrames_sorted K hk hk0 m hm' L' hap'
        (fun n hn => (hlimit _ (List.mem_map_of_mem hn)).trans_lt hlim)
        (fun q hq a ha => (hlimit a ha).trans (hnext q hq)) (halive.addFree hcode)
      refine ⟨P'', ?_⟩
      rw [if_pos hr]
      simp only [sub32_of_le hsl hlim, hcode]
      exact hrun
    · rw [if_neg hr]
      exact initFrames_sorted K hk hk0 m hm' L hap hbd (fun q hq => hstop q (by simp [hq]))
        halive.mono

/-! ## All the rounds -/

/-- The range is free and past one that is not free and is past the start of the kernel. -/
def PastReserved (K : KernelLayout) (m : List MemRange) (r : MemRange) : Prop :=
  r.type = 1 ∧ ∃ q ∈ m, q.type ≠ 1 ∧ K.kernelStartPhys < q.base ∧ q.base < r.base

/-- The first area of all. -/
theorem addFree_empty (start size : ℕ) {node : ℕ} (h0 : node ≠ 0) : ∃ P₁,
    Pool.empty.addFree start size node = some (P₁, .noErr) ∧ P₁.areas = [⟨start, size⟩] := by
  obtain ⟨L, harea⟩ := PageList.empty.list.insertOnly start size h0 (fun h => by cases h)
  refine ⟨_, by rw [Pool.addFree, if_pos (show Pool.empty.list = 0 from rfl)], ?_⟩
  rw [areas, L.areaList_eq]
  exact harea

/-- The first round: the loop ends after it, or a free range past the limit is where it goes on. -/
theorem initPages_first (hm : MapSorted m) (hk : Function.Injective kmalloc)
    (hk0 : ∀ i, kmalloc i ≠ 0) (hS0 : S ≠ 0) (hS : S < 2 ^ 32) :
    ((∀ f ∈ m, f.type = 1 → f.base ≤ nextLimit m S) ∧ ∀ fuel, ∃ P',
        Pool.empty.initPages m kmalloc (fuel + 2) S 0 = some (P', .noErr) ∧ Avoids m S P'.areas)
      ∨ ∃ f ∈ m, f.type = 1 ∧ nextLimit m S < f.base
        ∧ (∀ f' ∈ m, f'.type = 1 → nextLimit m S < f'.base → f.base ≤ f'.base)
        ∧ ∀ fuel, ∃ P₁ l₁, P₁.PageList l₁ ∧ FromRound kmalloc fuel P₁ ∧ l₁ ≠ []
          ∧ (∀ a ∈ l₁.map P₁.area, a.stop < f.base) ∧ Avoids m S (l₁.map P₁.area)
          ∧ Pool.empty.initPages m kmalloc (fuel + 1) S 0
            = P₁.initPages m kmalloc fuel f.base f.base := by
  have hbase : ∀ r ∈ m, r.base < 2 ^ 32 := fun r hr => hm.base_lt hr
  obtain ⟨hle, hb, -⟩ := nextLimit_bounds hbase hS
  have havoids : Avoids m S [⟨S, nextLimit m S - S⟩] := hm.avoids le_rfl (.inl rfl)
  have hempty : ∀ fuel, FromRound kmalloc fuel Pool.empty := fun fuel x hx => by cases hx
  by_cases hmax : S < archMaxAddress
  · have hround := fun fuel => PageList.empty.round fuel 0 hbase hk hk0
      (hempty (fuel + 1)) hS0 hS (by simp) fun _ => hmax
    rcases hm.nextStart_eq (nextLimit m S) 0 with ⟨hnone, hnext⟩ | ⟨f, hf, hf1, hlim, hnext, hmin⟩
    · refine .inl ⟨hnone, fun fuel => ?_⟩
      obtain ⟨P₁, l₁, h₁, harea, -, hrun⟩ := hround (fuel + 1)
      refine ⟨P₁, ?_, ?_⟩
      · rw [hrun, hnext, ite_self, initPages, if_pos rfl]
      · rw [h₁.areas_eq, harea]
        exact havoids
    · refine .inr ⟨f, hf, hf1, hlim, hmin, fun fuel => ?_⟩
      obtain ⟨P₁, l₁, h₁, harea, halive, hrun⟩ := hround fuel
      have hne : nextLimit m S ≠ archMaxAddress := fun he => by
        have := hbase f hf
        rw [he] at hlim
        exact absurd hlim (Nat.not_lt.2 (Nat.le_of_lt_succ this))
      rw [List.map_nil, List.nil_append] at harea
      rw [hnext, if_neg hne] at hrun
      refine ⟨P₁, l₁, h₁, halive, ?_, fun a ha => ?_, by rw [harea]; exact havoids, hrun⟩
      · rintro rfl
        simp at harea
      · rw [harea] at ha
        rw [List.mem_singleton.1 ha]
        simp only [Area.stop]
        omega
  · -- the kernel starts at the last address: an area without bytes
    have hSmax : S = archMaxAddress := le_antisymm (Nat.le_of_lt_succ hS) (Nat.le_of_not_lt hmax)
    have hlim : nextLimit m S = archMaxAddress :=
      le_antisymm (Nat.le_of_lt_succ hb) (hSmax ▸ hle)
    refine .inl ⟨fun f hf _ => ?_, fun fuel => ?_⟩
    · rw [hlim]
      exact Nat.le_of_lt_succ (hbase f hf)
    · obtain ⟨P₁, hadd, harea⟩ := addFree_empty S (nextLimit m S - S) (hk0 (fuel + 1))
      refine ⟨P₁, ?_, by rwa [harea]⟩
      rw [initPages, if_neg hS0]
      simp only [sub32_of_le hle hb, hadd]
      rw [if_pos hlim, initPages, if_pos rfl]

/-- The frames of a sorted map are no obstacle: what `memalloc_init` returns is up to the pages. -/
theorem memallocInit_ok_iff (hm : MapSorted m) (hk : Function.Injective kmalloc)
    (hk0 : ∀ i, kmalloc i ≠ 0) (fuel : ℕ) {R : List Area → Prop} :
    (∃ F P, memallocInit K m kmalloc fuel = some (F, P, .noErr) ∧ R P.areas)
      ↔ ∃ P, Pool.empty.initPages m kmalloc fuel K.kernelStartPhys 0 = some (P, .noErr)
        ∧ R P.areas := by
  have hk' : Function.Injective fun i => kmalloc (fuel + i) := fun i j h =>
    Nat.add_left_cancel (hk h)
  obtain ⟨F, hF⟩ := initFrames_sorted K hk' (fun i => hk0 _) m hm PageList.empty.list .nil
    (by simp [Bounded]) (by simp) (fun x hx => by cases hx)
  have hinit : memallocInit K m kmalloc fuel
      = (Pool.empty.initPages m kmalloc fuel K.kernelStartPhys 0).map
        fun x => (F, x.1, x.2) := by
    rw [memallocInit, hF, Option.bind_some]
    exact if_neg (not_not.2 rfl)
  rw [hinit]
  constructor
  · rintro ⟨F', P, hrun, hR⟩
    obtain ⟨⟨P', err⟩, hP, heq⟩ := Option.map_eq_some_iff.1 hrun
    simp only [Prod.mk.injEq] at heq
    obtain ⟨-, rfl, rfl⟩ := heq
    exact ⟨P', hP, hR⟩
  · rintro ⟨P, hrun, hR⟩
    exact ⟨F, P, by rw [hrun]; rfl, hR⟩

/-- It is a free range past the limit of the first round. -/
theorem MapSorted.pastReserved_iff (hm : MapSorted m) {r : MemRange} (hr : r ∈ m) :
    PastReserved K m r ↔ r.type = 1 ∧ nextLimit m K.kernelStartPhys < r.base := by
  refine and_congr_right fun _ => ⟨?_, fun hlt => ?_⟩
  · rintro ⟨q, hq, htype, hSq, hqr⟩
    exact (hm.nextLimit_le hq htype hSq).trans_lt hqr
  · rcases hm.nextLimit_eq K.kernelStartPhys with ⟨-, h⟩ | ⟨q, hq, htype, hSq, h, -⟩
    · rw [h] at hlt
      exact absurd hlt (Nat.not_lt.2 (Nat.le_of_lt_succ (hm.base_lt hr)))
    · exact ⟨q, hq, htype, hSq, h ▸ hlt⟩

/-- Where the first round goes on, what the rounds after it need is asked of the ranges past reserved
memory. -/
theorem MapSorted.ends_first_iff (hm : MapSorted m) {f : MemRange} (hf : f ∈ m) (hf1 : f.type = 1)
    (hlim : nextLimit m K.kernelStartPhys < f.base)
    (hmin : ∀ f' ∈ m, f'.type = 1 → nextLimit m K.kernelStartPhys < f'.base → f.base ≤ f'.base) :
    Ends m f.base ↔ ∀ r ∈ m, PastReserved K m r → ∃ p ∈ m, PastReserved K m p
      ∧ ∀ q ∈ m, q.type ≠ 1 → p.base < q.base → q.base = archMaxAddress := by
  constructor
  · rintro ⟨p, hp, hp1, hle, hlast⟩ - - -
    exact ⟨p, hp, (hm.pastReserved_iff hp).2 ⟨hp1, hlim.trans_le hle⟩, hlast⟩
  · intro h
    obtain ⟨p, hp, hpp, hlast⟩ := h f hf ((hm.pastReserved_iff hf).2 ⟨hf1, hlim⟩)
    obtain ⟨hp1, hp2⟩ := (hm.pastReserved_iff hp).1 hpp
    exact ⟨p, hp, hp1, hmin p hp hp1 hp2, hlast⟩

/-- On a sorted map `memalloc_init` returns without an error, and its pages are clear of the memory
that is not free and past the start of the kernel, exactly when the kernel starts at 0, or no free
range is past such memory, or one that is has no memory that is not free after it. -/
theorem memallocInit_ends_iff (hK : K.kernelStartPhys < 2 ^ 32)
    (hr : ∀ r ∈ m, r.base ≤ r.limit ∧ r.limit < 2 ^ 32)
    (hs : m.Pairwise fun a b => a.base < b.base ∧ a.limit ≤ b.base)
    (hk : Function.Injective kmalloc) (hk0 : ∀ i, kmalloc i ≠ 0) :
    (∃ N, ∀ fuel ≥ N, ∃ F P, memallocInit K m kmalloc fuel = some (F, P, .noErr)
        ∧ ∀ r ∈ m, r.type ≠ 1 → K.kernelStartPhys < r.base → Disjoint r.bytes (covered P.areas))
      ↔ K.kernelStartPhys = 0 ∨ ∀ r ∈ m, PastReserved K m r → ∃ p ∈ m, PastReserved K m p
        ∧ ∀ q ∈ m, q.type ≠ 1 → p.base < q.base → q.base = archMaxAddress := by
  have hm : MapSorted m := ⟨hr, hs⟩
  have hok := fun fuel => memallocInit_ok_iff (K := K) hm hk hk0 fuel
    (R := Avoids m K.kernelStartPhys)
  refine (exists_congr fun N => forall_congr' fun fuel => forall_congr' fun _ => hok fuel).trans ?_
  by_cases hS0 : K.kernelStartPhys = 0
  · refine iff_of_true ⟨1, fun fuel hfuel => ⟨Pool.empty, ?_, fun r _ _ _ => ?_⟩⟩ (.inl hS0)
    · obtain ⟨fuel, rfl⟩ := Nat.exists_eq_add_of_le' hfuel
      rw [initPages, if_pos hS0]
    · rw [PageList.empty.areas_eq]
      simp
  simp only [hS0, false_or]
  rcases initPages_first hm hk hk0 hS0 hK with ⟨hnone, hrun⟩ | ⟨f, hf, hf1, hlim, hmin, hrun⟩
  · refine iff_of_true ⟨2, fun fuel hfuel => ?_⟩ fun r hrm hp => ?_
    · obtain ⟨fuel, rfl⟩ := Nat.exists_eq_add_of_le' hfuel
      exact hrun fuel
    · obtain ⟨h1, h2⟩ := (hm.pastReserved_iff hrm).1 hp
      exact absurd h2 (Nat.not_lt.2 (hnone r hrm h1))
  rw [← hm.ends_first_iff hf hf1 hlim hmin]
  constructor
  · rintro ⟨N, hN⟩
    by_contra hno
    obtain ⟨P', hP', -⟩ := hN (N + 1) (Nat.le_succ N)
    obtain ⟨P₁, l₁, h₁, halive, hne, hstop, -, hr₁⟩ := hrun N
    rw [hr₁] at hP'
    exact initPages_fails hm hk hk0 N f.base hf hf1 rfl hno h₁ halive hne hstop hP'
  · intro h
    have hSf : K.kernelStartPhys ≤ f.base :=
      (nextLimit_bounds (fun r hrm => hm.base_lt hrm) hK).1.trans hlim.le
    obtain ⟨N, hN⟩ := initPages_ends hm hk hk0 K.kernelStartPhys f.base hSf hf hf1 rfl h
    refine ⟨N + 1, fun fuel hfuel => ?_⟩
    obtain ⟨fuel, rfl⟩ := Nat.exists_eq_add_of_le' hfuel
    obtain ⟨P₁, l₁, h₁, halive, hne, hstop, hA, hr₁⟩ := hrun (fuel + N)
    rw [show fuel + (N + 1) = fuel + N + 1 from rfl, hr₁]
    exact hN (fuel + N) (Nat.le_add_left _ _) h₁ halive hne hstop hA

/-- A PC with 128 MB: no free range after the first that is not. -/
theorem memallocInit_ends_pc : ∃ N, ∀ fuel ≥ N, ∃ F P,
    memallocInit ⟨0xE0200000, 0x100000⟩ [⟨0, 0x9FC00, 1⟩, ⟨0x9FC00, 0xA0000, 2⟩,
      ⟨0xF0000, 0x100000, 2⟩, ⟨0x100000, 0x7FE0000, 1⟩, ⟨0x7FE0000, 0x8000000, 2⟩]
      (fun i => i + 1) fuel = some (F, P, .noErr)
    ∧ ∀ r ∈ ([⟨0, 0x9FC00, 1⟩, ⟨0x9FC00, 0xA0000, 2⟩, ⟨0xF0000, 0x100000, 2⟩,
      ⟨0x100000, 0x7FE0000, 1⟩, ⟨0x7FE0000, 0x8000000, 2⟩] : List MemRange), r.type ≠ 1 →
      0x100000 < r.base → Disjoint r.bytes (covered P.areas) :=
  (memallocInit_ends_iff (K := ⟨0xE0200000, 0x100000⟩) (by decide) (by decide) (by decide)
    (add_left_injective 1) (by simp)).2 (.inr (by unfold PastReserved; decide))

/-- More memory after that, and a device at the end: the loop adds it twice. -/
theorem not_memallocInit_ends : ∃ F P,
    memallocInit ⟨0xE0200000, 0x100000⟩ [⟨0x100000, 0x7FE0000, 1⟩, ⟨0x7FE0000, 0x8000000, 2⟩,
      ⟨0x8000000, 0xC0000000, 1⟩, ⟨0xFFFC0000, 0xFFFF0000, 2⟩] (fun i => i + 1) 9
      = some (F, P, .unauthorizedAction) := by
  have hrun : (memallocInit ⟨0xE0200000, 0x100000⟩ [⟨0x100000, 0x7FE0000, 1⟩,
      ⟨0x7FE0000, 0x8000000, 2⟩, ⟨0x8000000, 0xC0000000, 1⟩, ⟨0xFFFC0000, 0xFFFF0000, 2⟩]
      (fun i => i + 1) 9).map (fun r => r.2.2) = some .unauthorizedAction := by decide +kernel
  obtain ⟨⟨F, P, err⟩, h, rfl⟩ := Option.map_eq_some_iff.1 hrun
  exact ⟨F, P, h⟩

end Pool

end RTLKIM

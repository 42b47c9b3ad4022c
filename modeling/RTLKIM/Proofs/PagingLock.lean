import RTLKIM.PagingLock
import RTLKIM.Proofs.LockSection

/-!
# When the paging calls give back their lock

A call has one section, or the section of `is_mapped` in its own. The early return of
`kernel_mmap_internal` is one `EXIT_CRITICAL` short: the nesting is one more and the interrupts stay
off (`early_iff`).
-/

namespace RTLKIM

namespace LockedPaging

variable {s s' : LockedPaging} {kmalloc : ℕ → Pool → ℕ} {v n : ℕ}

theorem rests_iff (nested : Bool) : s.Rests nested ↔ s.crit.booted ≤ 1
    ∨ (⟨0, if s.crit.lock.nesting = 0 ∨ nested = true ∧ s.crit.lock.nesting + 1 = 0 then -1
        else s.crit.cpuId, s.crit.lock.nesting⟩ : LockFields) = s.crit.lock := by
  unfold Rests
  rcases s.crit.lock with ⟨a, b, c⟩
  simp only [LockFields.mk.injEq, and_true]
  constructor
  · rintro (h | ⟨h1, h2⟩)
    · exact .inl h
    · exact .inr ⟨h1.symm, h2.symm⟩
  · rintro (h | ⟨h1, h2⟩)
    · exact .inl h
    · exact .inr ⟨h1.symm, h2.symm⟩

/-- A call whose section is the only one. -/
theorem once_iff {x : Bool} {k : CritState} (E : s.crit.Entered x k) :
    k.exitCritical x = s.crit ↔ s.Rests false := by
  rw [CritState.exit_enter E, CritState.eq_iff, rests_iff]
  simp

theorem isMapped_spec {a : ℕ} {b : Bool} (h : s.isMapped a n = some (s', b)) :
    s'.paging = s.paging ∧ s.paging.isMapped a n = some b
      ∧ ∃ x k, s.crit.Entered x k ∧ s'.crit = k.exitCritical x := by
  unfold isMapped at h
  simp only [Option.bind_eq_some_iff, Option.map_eq_some_iff] at h
  obtain ⟨⟨x, k⟩, hE, found, hf, h⟩ := h
  cases h
  exact ⟨rfl, hf, x, k, CritState.enter_spec hE, rfl⟩

/-- The early return has nesting and interrupts to give back. -/
theorem early_iff {x x' : Bool} {k k' : CritState} (E : s.crit.Entered x k)
    (E' : k.Entered x' k') :
    k'.exitCritical x' = s.crit ↔ s.crit.booted ≤ 1 ∧ s.crit.ints = false := by
  rw [CritState.inner_exit E E']
  rcases s with ⟨⟨c, b, i, l⟩, p⟩
  by_cases hb : 1 < b
  · -- the nesting is another
    have hn : l.nesting + 1 ≠ l.nesting := by
      intro h
      exact absurd (UInt32.add_eq_left.1 h) (by decide)
    simp only [hb, if_true, CritState.mk.injEq, true_and]
    constructor
    · rintro ⟨-, h⟩
      exact absurd (congrArg LockFields.nesting h) hn
    · rintro ⟨h, -⟩
      omega
  · simp only [hb, if_false, CritState.mk.injEq, true_and, and_true, not_lt.1 hb]
    exact eq_comm

theorem kernelMmapInternal_spec {f : ℕ} {ro ce hw : Bool} {e : PagingErr}
    (h : s.kernelMmapInternal v f n ro ce hw = some (s', e)) :
    s.paging.kernelMmapInternal v f n ro ce hw = some (s'.paging, e)
      ∧ (s'.crit = s.crit ↔ s.MapBalances v n) := by
  unfold kernelMmapInternal at h
  simp only [Option.bind_eq_some_iff] at h
  obtain ⟨⟨x, k⟩, hE, ⟨s₁, mapped⟩, hm, h⟩ := h
  have E := CritState.enter_spec hE
  obtain ⟨hp, hmap, x', k', E', hk'⟩ := isMapped_spec hm
  have htables : s.paging.kernelMmapInternal v f n ro ce hw
      = if mapped then some (s.paging, .mappingAlreadyExists)
        else (sweep kernelPageSize (Paging.mapPage ro ce hw) (toMap v n + 1)
          ⟨s.paging, f &&& pageAlignMask, .noErr⟩ (v &&& pageAlignMask) (toMap v n)).map fun m =>
            (m.paging, .pool m.err) := by
    unfold Paging.kernelMmapInternal
    change (s.paging.isMapped (v &&& pageAlignMask) (toMap v n)).bind _ = _
    rw [hmap]
    rfl
  rw [htables, MapBalances, AlreadyMapped, hmap]
  cases mapped with
  | true =>
    cases h
    refine ⟨by rw [if_pos rfl, hp], ?_⟩
    rw [hk', early_iff E E']
    simp
  | false =>
    simp only [Bool.false_eq_true, if_false, Option.map_eq_some_iff] at h
    obtain ⟨m, hsw, h⟩ := h
    cases h
    rw [hp] at hsw
    refine ⟨by rw [if_neg (by simp), hsw]; rfl, ?_⟩
    rw [hk', CritState.outer_exit E E', CritState.eq_iff, rests_iff]
    simp

theorem kernelMmap_lock {ro : Bool} {e : PagingErr}
    (h : s.kernelMmap kmalloc v n ro = some (s', e)) :
    Paging.kernelMmap kmalloc s.paging v n ro = some (s'.paging, e)
      ∧ (s'.crit = s.crit ↔ s.NoFrames v n ∨ s.MapBalances v n) := by
  unfold kernelMmap at h
  unfold Paging.kernelMmap
  simp only [Option.bind_eq_some_iff, CritState.otherSection_eq] at h
  obtain ⟨⟨P, frames, err⟩, hg, h⟩ := h
  change (s.paging.pool.getBlock (pageCount v n)).bind _ = _ ∧ _
  rw [hg, Option.bind_some]
  dsimp only at h ⊢
  by_cases he : err = .noErr
  · subst he
    have hno : ¬ s.NoFrames v n := fun h => h P frames hg
    rw [if_neg (not_not.2 rfl)] at h ⊢
    rw [Option.bind_eq_some_iff] at h
    obtain ⟨⟨s₁, err⟩, hi, h⟩ := h
    obtain ⟨ht, hb⟩ := kernelMmapInternal_spec hi
    -- the calls read the tables alone, which the pool is no part of
    have hb' : s₁.crit = s.crit ↔ s.NoFrames v n ∨ s.MapBalances v n := by
      rw [or_iff_right hno]
      exact hb
    rw [ht, Option.bind_some]
    dsimp only at h ⊢
    split_ifs at h ⊢ with hc
    · rw [Option.map_eq_some_iff] at h
      obtain ⟨q, hq, h⟩ := h
      cases h
      exact ⟨congrArg (Option.map fun q => (q, e)) hq, hb'⟩
    · cases h
      exact ⟨rfl, hb'⟩
  · have hno : s.NoFrames v n := by
      intro P' a hg'
      rw [hg] at hg'
      cases hg'
      exact he rfl
    rw [if_pos he] at h ⊢
    cases h
    exact ⟨rfl, fun _ => .inl hno, fun _ => rfl⟩

/-- A call that returns leaves the lock and the interrupts as they were exactly when `Balances`
holds, and does to the tables what the call without its lock does. -/
theorem paging_lock_balanced_iff {op : PagingCall} {r : PagingRet}
    (h : s.call kmalloc op = some (s', r)) :
    tables kmalloc s.paging op = some (s'.paging, r) ∧ (s'.crit = s.crit ↔ s.Balances op) := by
  cases op with
  | isMapped a n =>
    simp only [call, Option.map_eq_some_iff] at h
    obtain ⟨⟨s₁, b⟩, hc, h⟩ := h
    cases h
    obtain ⟨hp, hm, x, k, E, hk⟩ := isMapped_spec hc
    refine ⟨by rw [tables, hm, hp]; rfl, ?_⟩
    rw [hk, Balances]
    exact once_iff E
  | kernelMmapHw v f n ro =>
    simp only [call, Option.map_eq_some_iff] at h
    obtain ⟨⟨s₁, e⟩, hc, h⟩ := h
    cases h
    obtain ⟨ht, hb⟩ := kernelMmapInternal_spec hc
    exact ⟨by rw [tables, ht]; rfl, hb⟩
  | kernelMmap v n ro =>
    simp only [call, Option.map_eq_some_iff] at h
    obtain ⟨⟨s₁, e⟩, hc, h⟩ := h
    cases h
    obtain ⟨ht, hb⟩ := kernelMmap_lock hc
    exact ⟨by rw [tables, ht]; rfl, hb⟩
  | kernelMunmap v n =>
    simp only [call, kernelMunmap, Option.map_eq_some_iff, Option.bind_eq_some_iff] at h
    obtain ⟨⟨s₁, e⟩, ⟨⟨x, k⟩, hE, ⟨q, e'⟩, hq, h'⟩, h⟩ := h
    cases h'
    cases h
    exact ⟨by rw [tables, hq]; rfl, once_iff (CritState.enter_spec hE)⟩

/-- CPU `0` of two with its interrupts enabled and the lock free, and the page at `0` mapped. -/
def onePage : LockedPaging :=
  ⟨⟨0, 2, true, ⟨0, -1, 0⟩⟩, fun d => if d = 0 then 0x2003 else 0,
    fun d i => if d = 0 ∧ i = 0 then 0x3003 else 0, fun _ => ⟨0, 0, 0, 0⟩, [], 0⟩

/-- The page after it is mapped to hardware. -/
theorem paging_lock_balanced_hw :
    ∃ s r, onePage.call (fun _ _ => 1) (.kernelMmapHw 0x1000 0xFEC00000 0x1000 false) = some (s, r)
      ∧ r = .code (.pool .noErr) ∧ s.crit = onePage.crit := by
  have hret : (onePage.call (fun _ _ => 1) (.kernelMmapHw 0x1000 0xFEC00000 0x1000 false)).map
      Prod.snd = some (.code (.pool .noErr)) := by decide +kernel
  obtain ⟨⟨s, r⟩, hc, hr⟩ := Option.map_eq_some_iff.1 hret
  refine ⟨s, r, hc, hr, (paging_lock_balanced_iff hc).2.2 (.inr ⟨?_, .inr ⟨rfl, rfl⟩⟩)⟩
  change ¬ onePage.paging.isMapped (0x1000 &&& pageAlignMask) (toMap 0x1000 0x1000) = some true
  decide +kernel

/-- Mapping over the page leaves the lock nested and the interrupts off. -/
theorem paging_lock_not_balanced : ¬ ∀ (s s' : LockedPaging) (kmalloc : ℕ → Pool → ℕ)
    (op : PagingCall) (r : PagingRet), s.call kmalloc op = some (s', r) → s'.crit = s.crit := by
  intro h
  have hret : (onePage.call (fun _ _ => 1) (.kernelMmapHw 0 0xFEC00000 0x1000 false)).map
      (fun r => (r.1.crit, r.2))
        = some (⟨0, 2, false, ⟨0, 0, 1⟩⟩, .code .mappingAlreadyExists) := by decide +kernel
  obtain ⟨⟨s, r⟩, hc, hr⟩ := Option.map_eq_some_iff.1 hret
  have hs : s.crit = ⟨0, 2, false, ⟨0, 0, 1⟩⟩ := congrArg Prod.fst hr
  have hb := h _ _ _ _ _ hc
  rw [hs] at hb
  exact absurd hb (by decide)

end LockedPaging

end RTLKIM

import RTLKIM.MemInfo

/-!
# What is registered of the memory map

The loop registers the entries in order up to the first one that is not in the map or, after the
first, whose address is a multiple of 4 GiB (`Stops`). The 32 low bits of an entry are its part
below 4 GiB when it ends below; an entry further up that is not at a multiple of 4 GiB is registered
as if it were below.
-/

namespace RTLKIM

namespace MmapEntry

variable {e : MmapEntry}

theorem toUInt32_addr_eq_zero : e.addr.toUInt32 = 0 ↔ 2 ^ 32 ∣ e.addr.toNat := by
  rw [← UInt32.toNat_inj, UInt64.toNat_toUInt32, Nat.dvd_iff_mod_eq_zero]
  rfl

theorem range_limit : e.range.limit = (e.addr.toNat + e.len.toNat) % 2 ^ 32 := by
  show (e.addr.toUInt32 + e.len.toUInt32).toNat = _
  rw [UInt32.toNat_add, UInt64.toNat_toUInt32, UInt64.toNat_toUInt32, ← Nat.add_mod]

/-- The range is the part below 4 GiB just when the entry ends below. -/
theorem below_eq_range : e.below = some e.range ↔ e.addr.toNat + e.len.toNat < 2 ^ 32 := by
  have hlim := range_limit (e := e)
  unfold below
  constructor
  · intro h
    split_ifs at h with haddr
    have heq : min (e.addr.toNat + e.len.toNat) (2 ^ 32) = e.range.limit :=
      congrArg MemRange.limit (Option.some_inj.1 h)
    have hmod : e.range.limit < 2 ^ 32 := hlim ▸ Nat.mod_lt _ (by decide)
    omega
  · intro h
    rw [if_pos (by omega)]
    have hbase : e.range.base = e.addr.toNat := by
      show e.addr.toUInt32.toNat = _
      rw [UInt64.toNat_toUInt32]
      exact Nat.mod_eq_of_lt (by omega)
    rw [Nat.mod_eq_of_lt h] at hlim
    rw [min_eq_left h.le, ← hlim, ← hbase]
    rfl

theorem below_eq_none : e.below = none ↔ 2 ^ 32 ≤ e.addr.toNat := by
  unfold below
  split_ifs with h
  · exact iff_of_false (by simp) (Nat.not_le.2 h)
  · exact iff_of_true rfl (Nat.le_of_not_lt h)

end MmapEntry

namespace Multiboot

variable {B : Multiboot} {n : ℕ}

/-- The loop goes past the entry. -/
def Goes (B : Multiboot) (k : ℕ) : Prop :=
  B.addrAt k < B.mmapEnd ∧ ¬ (k ≠ 0 ∧ (B.entryAt k).addr.toUInt32 = 0)

theorem goes_or_not_inMap (h : ∀ k < n, B.Goes k) : B.addrAt n < B.mmapEnd ↔ B.InMap n := by
  refine ⟨fun hn j hj => ?_, fun hn => hn n le_rfl⟩
  rcases hj.lt_or_eq with hj | rfl
  · exact (h j hj).1
  · exact hn

/-- The ranges of the first entries. -/
def ranges (B : Multiboot) (n : ℕ) : List MemRange := (List.range n).map fun k => (B.entryAt k).range

@[simp] theorem length_ranges : (B.ranges n).length = n := by simp [ranges]

theorem ranges_succ : B.ranges (n + 1) = B.ranges n ++ [(B.entryAt n).range] := by
  simp [ranges, List.range_succ]

/-- One round. -/
theorem memoryMapLoop_succ (fuel : ℕ) (total : UInt64) :
    (B.Goes n → n < memoryMapMax →
      B.memoryMapLoop (fuel + 1) (B.addrAt n) (B.ranges n) total
        = B.memoryMapLoop fuel (B.addrAt (n + 1)) (B.ranges (n + 1)) (total + (B.entryAt n).len))
    ∧ (B.Goes n → memoryMapMax ≤ n →
      B.memoryMapLoop (fuel + 1) (B.addrAt n) (B.ranges n) total = some .overrun)
    ∧ (¬ B.Goes n →
      B.memoryMapLoop (fuel + 1) (B.addrAt n) (B.ranges n) total = some (.done (B.ranges n) total))
    := by
  rw [memoryMapLoop, length_ranges]
  refine ⟨fun ⟨hlt, hgo⟩ hn => ?_, fun ⟨hlt, hgo⟩ hn => ?_, fun h => ?_⟩
  · rw [if_pos hlt, ranges_succ]
    exact (if_neg hgo).trans (if_neg (Nat.not_le.2 hn))
  · rw [if_pos hlt]
    exact (if_neg hgo).trans (if_pos hn)
  · by_cases hlt : B.addrAt n < B.mmapEnd
    · rw [if_pos hlt]
      exact if_pos (not_not.1 fun hgo => h ⟨hlt, hgo⟩)
    · rw [if_neg hlt]

/-- What the loop ends with: the ranges of the entries up to the first it does not go past. -/
theorem done_of_loop {data : List MemRange} {total' : UInt64} : ∀ (fuel n : ℕ) (total : UInt64),
    B.memoryMapLoop fuel (B.addrAt n) (B.ranges n) total = some (.done data total') →
    (∀ k < n, B.Goes k ∧ k < memoryMapMax) →
    ∃ N, data = B.ranges N ∧ (∀ k < N, B.Goes k ∧ k < memoryMapMax) ∧ ¬ B.Goes N
  | 0, _, _, h, _ => by cases h
  | fuel + 1, n, total, h, hn => by
    obtain ⟨hgo, hover, hstop⟩ := memoryMapLoop_succ (B := B) (n := n) fuel total
    by_cases hg : B.Goes n
    · by_cases hmax : n < memoryMapMax
      · rw [hgo hg hmax] at h
        refine done_of_loop fuel (n + 1) _ h fun k hk => ?_
        rcases (Nat.lt_succ_iff.1 hk).lt_or_eq with hk | rfl
        · exact hn k hk
        · exact ⟨hg, hmax⟩
      · rw [hover hg (Nat.le_of_not_lt hmax)] at h
        cases h
    · rw [hstop hg] at h
      cases h
      exact ⟨n, rfl, hn, hg⟩

/-- The loop ends when there is an entry it does not go past. -/
theorem loop_done {N : ℕ} (hgo : ∀ k < N, B.Goes k) (hN : N ≤ memoryMapMax) (hstop : ¬ B.Goes N) :
    ∀ (d n : ℕ) (total : UInt64), n + d = N → ∃ total',
      B.memoryMapLoop (d + 1) (B.addrAt n) (B.ranges n) total = some (.done (B.ranges N) total')
  | 0, n, total, h => by
    obtain rfl : n = N := h
    exact ⟨total, (memoryMapLoop_succ 0 total).2.2 hstop⟩
  | d + 1, n, total, h => by
    have hlt : n < N := by omega
    rw [(memoryMapLoop_succ (d + 1) total).1 (hgo n hlt) (hlt.trans_le hN)]
    exact loop_done hgo hN hstop d (n + 1) _ (by omega)

theorem memoryMapInit_eq (fuel : ℕ) :
    B.memoryMapInit fuel = B.memoryMapLoop fuel (B.addrAt 0) (B.ranges 0) 0 := rfl

/-- The map is registered exactly when its first entries, at most 100, end below 4 GiB and all but
the first have an address, the entries after them are above 4 GiB, and the one after them, if there
is one, is not the first and is at a multiple of 4 GiB. -/
theorem registers_iff (B : Multiboot) : B.Registers ↔ ∃ n ≤ memoryMapMax,
    (∀ k < n, B.InMap k ∧ (B.entryAt k).addr.toNat + (B.entryAt k).len.toNat < 2 ^ 32
      ∧ (k ≠ 0 → (B.entryAt k).addr.toNat ≠ 0))
    ∧ (∀ k, n ≤ k → B.InMap k → 2 ^ 32 ≤ (B.entryAt k).addr.toNat)
    ∧ (B.InMap n → n ≠ 0 ∧ 2 ^ 32 ∣ (B.entryAt n).addr.toNat) := by
  constructor
  · rintro ⟨fuel, data, total, hrun, hparts, hrest⟩
    rw [memoryMapInit_eq] at hrun
    obtain ⟨n, rfl, hgo, hstop⟩ := done_of_loop fuel 0 0 hrun (by simp)
    simp only [length_ranges] at hparts hrest
    have hgoes : ∀ k < n, B.Goes k := fun k hk => (hgo k hk).1
    have hin : ∀ k < n, B.InMap k := fun k hk =>
      (goes_or_not_inMap fun j hj => hgoes j (hj.trans hk)).1 (hgoes k hk).1
    refine ⟨n, ?_, fun k hk => ⟨hin k hk, ?_, fun hk0 hzero => ?_⟩,
      fun k hk hmap => MmapEntry.below_eq_none.1 (hrest k hk hmap), fun hmap => ?_⟩
    · rcases n with _ | n
      · exact Nat.zero_le _
      · exact (hgo n (Nat.lt_succ_self n)).2
    · refine MmapEntry.below_eq_range.1 ((hparts k hk).trans ?_)
      simp [ranges]
    · refine (hgoes k hk).2 ⟨hk0, MmapEntry.toUInt32_addr_eq_zero.2 ?_⟩
      rw [hzero]
      exact dvd_zero _
    · obtain ⟨hn0, hzero⟩ : n ≠ 0 ∧ (B.entryAt n).addr.toUInt32 = 0 :=
        not_not.1 fun h => hstop ⟨hmap n le_rfl, h⟩
      exact ⟨hn0, MmapEntry.toUInt32_addr_eq_zero.1 hzero⟩
  · rintro ⟨n, hn, hfirst, hrest, hlast⟩
    have hgo : ∀ k < n, B.Goes k := by
      intro k hk
      obtain ⟨hmap, hend, haddr⟩ := hfirst k hk
      refine ⟨hmap k le_rfl, fun ⟨hk0, hzero⟩ => haddr hk0 ?_⟩
      have hdvd := MmapEntry.toUInt32_addr_eq_zero.1 hzero
      exact Nat.eq_zero_of_dvd_of_lt hdvd (by omega)
    have hstop : ¬ B.Goes n := by
      intro hg
      obtain ⟨hn0, hdvd⟩ := hlast ((goes_or_not_inMap hgo).1 hg.1)
      exact hg.2 ⟨hn0, MmapEntry.toUInt32_addr_eq_zero.2 hdvd⟩
    obtain ⟨total, hrun⟩ := loop_done hgo hn hstop n 0 0 (Nat.zero_add n)
    refine ⟨n + 1, B.ranges n, total, hrun, fun k hk => ?_, fun k hk hmap => ?_⟩
    · rw [length_ranges] at hk
      rw [MmapEntry.below_eq_range.2 (hfirst k hk).2.1]
      simp [ranges]
    · rw [length_ranges] at hk
      exact MmapEntry.below_eq_none.2 (hrest k hk hmap)

/-- Memory at 0, and more at 4 GiB and a page. -/
def highMap : Multiboot where
  mmapAddr := 0x9000
  mmapLength := 48
  entry a := if a = 0x9000 + UInt32.ofNat kernelMemOffset then ⟨20, 0, 0x9FC00, 1⟩
    else ⟨20, 0x100001000, 0x1000, 1⟩

/-- The second range is registered at the first page. -/
theorem not_registers_highMap : ¬ highMap.Registers
    ∧ ∃ total, highMap.memoryMapInit 3
      = some (.done [⟨0, 0x9FC00, 1⟩, ⟨0x1000, 0x2000, 1⟩] total) := by
  have hgo : ∀ k < 2, highMap.Goes k := by
    unfold Goes
    decide +kernel
  refine ⟨?_, 0xA0C00, by decide +kernel⟩
  rintro ⟨fuel, data, total, hrun, hparts, -⟩
  rw [memoryMapInit_eq] at hrun
  obtain ⟨n, rfl, -, hstop⟩ := done_of_loop fuel 0 0 hrun (by simp)
  have hn : 1 < n := by
    by_contra hlt
    exact hstop (hgo n (by omega))
  have hpart := hparts 1 (by rwa [length_ranges])
  have hnone : (highMap.entryAt 1).below = none := MmapEntry.below_eq_none.2 (by decide +kernel)
  rw [hnone] at hpart
  cases hpart

end Multiboot

end RTLKIM

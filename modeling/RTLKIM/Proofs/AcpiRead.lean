import RTLKIM.AcpiSpec
import RTLKIM.Lib.Packed

/-!
# Reading the tables

A read faults unless its bytes are on mapped pages, and `acpi_map_data` takes none away. The loop of a
checksum is its sum along the bytes if its counter does not come to wrap, so it ends just when they are
all mapped; a counter that wraps before the length is below it for ever.
-/

namespace RTLKIM

variable {ρ : Type} {mem : ℕ → UInt8} {hw : HwPages ρ} {pages pages' : ρ} {a b m n : ℕ}

/-! ## Pages that are mapped -/

theorem HwPages.Covers.sub (h : hw.Covers pages a n) (hle : a ≤ b) (hend : b + m ≤ a + n) :
    hw.Covers pages b m := by
  intro i hi
  have hmapped := h (b - a + i) (by omega)
  rwa [show a + (b - a + i) = b + i by omega] at hmapped

theorem acpiMapData_total (hw : HwPages ρ) (pages : ρ) (startAddr size : ℕ) :
    ∃ r, acpiMapData hw pages startAddr size = some r := by
  refine sweep_total (by decide) (fun r a => ?_) _ _ _ _ (Nat.lt_succ_self _) (sub32_lt _ _)
  unfold acpiMapPage
  dsimp only
  split_ifs
  · exact ⟨_, rfl⟩
  · exact ⟨_, rfl⟩

/-- `acpi_map_data` takes no page away. -/
theorem acpiMapData_keeps {err : AcpiErr} (h : acpiMapData hw pages a n = some (pages', err))
    (hc : hw.Covers pages b m) : hw.Covers pages' b m := by
  refine sweep_keeps (I := fun r : ρ × AcpiErr => hw.Covers r.1 b m) (fun r addr r' hr hr' => ?_) hc h
  unfold acpiMapPage at hr'
  dsimp only at hr'
  split_ifs at hr'
  · cases hr'
    exact fun i hi => hw.keeps (hr i hi)
  · cases hr'
    exact fun i hi => hw.keeps (hr i hi)

/-- `acpi_map_data` that succeeds leaves the bytes on mapped pages. -/
theorem acpiMapData_covers (hfit : a + n ≤ pagingRecurPgTable)
    (h : acpiMapData hw pages a n = some (pages', .noErr)) : hw.Covers pages' a n := by
  simp only [pagingRecurPgTable] at hfit
  have halign : a &&& pageAlignMask = a / 4096 * 4096 := and_mask (by omega)
  have hsize : sub32 (add32 n a) (a / 4096 * 4096) = n + a % 4096 := by
    rw [add32_of_lt (by omega), sub32_of_le (by omega) (by omega)]
    omega
  obtain ⟨count, hcount, hcount', hpages⟩ : ∃ c, n + a % 4096 ≤ c * 4096
      ∧ c * 4096 < n + a % 4096 + 4096 ∧ a / 4096 * 4096 + c * 4096 < 0xFFC00000 + 4096 :=
    ⟨(n + a % 4096 + 4095) / 4096, by omega, by omega, by omega⟩
  have hbase : (a / 4096 + count) * kernelPageSize < 2 ^ 32 := by
    rw [Nat.add_mul]
    exact hpages.trans (by decide)
  have hstep : ∀ k < count, ∀ r : ρ × AcpiErr,
      r.2 = .noErr ∧ hw.Covers r.1 (a / 4096 * 4096) (k * 4096) →
      ∃ r', acpiMapPage hw r ((a / 4096 + k) * kernelPageSize) = some r'
        ∧ if r'.2 then r'.1.2 ≠ .noErr
          else r'.1.2 = .noErr ∧ hw.Covers r'.1.1 (a / 4096 * 4096) ((k + 1) * 4096) := by
    intro k hk r hr
    unfold acpiMapPage
    dsimp only
    split_ifs with hcode
    · exact ⟨_, rfl, by simp⟩
    · refine ⟨_, rfl, ?_⟩
      rw [if_neg (by simp)]
      refine ⟨rfl, fun i hi => ?_⟩
      by_cases hlast : i < k * 4096
      · exact hw.keeps (hr.2 i hlast)
      · obtain ⟨j, rfl⟩ := Nat.exists_eq_add_of_le (Nat.le_of_not_lt hlast)
        rw [Nat.succ_mul] at hi
        have hadd : (a / 4096 + k) * kernelPageSize + j = a / 4096 * 4096 + (k * 4096 + j) := by
          simp only [kernelPageSize, Nat.add_mul, Nat.add_assoc]
        rw [← hadd]
        exact hw.maps (Nat.mul_mod_left _ _) (Nat.lt_of_add_lt_add_left hi)
          ((not_and_or.1 hcode).imp not_not.1 not_not.1)
  obtain ⟨r, hr, hI⟩ := sweep_pages (acpiMapPage hw)
    (fun k r => r.2 = .noErr ∧ hw.Covers r.1 (a / 4096 * 4096) (k * 4096)) (fun r => r.2 ≠ .noErr)
    (K := kernelPageSize) (a := a / 4096) (n := count) (by decide) hbase hstep hcount
    hcount' (s := (pages, .noErr)) ⟨rfl, fun i hi => absurd hi (by simp)⟩
  unfold acpiMapData at h
  simp only [halign, hsize] at h
  obtain rfl : r = (pages', .noErr) := Option.some.inj (hr.symm.trans h)
  rcases hI with ⟨-, hI⟩ | hI
  · exact hI.sub (by omega) (by omega)
  · exact absurd rfl hI

theorem word_lt (a : ℕ) : word mem a < 2 ^ 32 := by
  have h0 := (mem a).toNat_lt
  have h1 := (mem (a + 1)).toNat_lt
  have h2 := (mem (a + 2)).toNat_lt
  have h3 := (mem (a + 3)).toNat_lt
  unfold word
  omega

theorem tableLength_lt (mem : ℕ → UInt8) (table : ℕ) : tableLength mem table < 2 ^ 32 := word_lt _

theorem entryLength_lt (mem : ℕ → UInt8) (p : ℕ) : entryLength mem p < 2 ^ 8 := (mem (p + 1)).toNat_lt

theorem nextEntry_eq {p : ℕ} (h : p < pagingRecurPgTable) : nextEntry mem p = p + entryLength mem p := by
  have hlt := entryLength_lt mem p
  simp only [pagingRecurPgTable] at h
  exact add32_of_lt (by omega)

namespace Acpi

variable {s s' : Acpi ρ} {table limit : ℕ}

/-! ## What is read -/

/-- The data without what was read. -/
def core (s : Acpi ρ) : Acpi ρ := { s with reads := [] }

theorem eq_of_core (h : s'.core = s.core) : s' = { s with reads := s'.reads } := by
  have h' : { s'.core with reads := s'.reads } = { s.core with reads := s'.reads } := by rw [h]
  exact h'

theorem touch_eq (h : hw.Covers s.pages a n) :
    s.touch hw a n = some { s with reads := (a, n) :: s.reads } := if_pos h

theorem touch_eq_some (h : s.touch hw a n = some s') :
    hw.Covers s.pages a n ∧ s' = { s with reads := (a, n) :: s.reads } := by
  unfold touch at h
  split_ifs at h with hc
  exact ⟨hc, (Option.some.inj h).symm⟩

theorem mapData_eq {err : AcpiErr} (h : acpiMapData hw s.pages a n = some (pages, err)) :
    s.mapData hw a n = some ({ s with pages := pages }, err) := by
  unfold mapData
  rw [h]
  rfl

@[simp] theorem inside_cons {reads : List (ℕ × ℕ)} :
    { s with reads := (a, n) :: reads }.Inside limit
      ↔ a + n ≤ limit ∧ { s with reads := reads }.Inside limit := by
  simp [Inside]

/-- The round of a checksum at a byte. -/
def sumByte (mem : ℕ → UInt8) (hw : HwPages ρ) (ws table : ℕ) (r : Acpi ρ × ℕ) (i : ℕ) :
    Option ((Acpi ρ × ℕ) × Bool) :=
  (r.1.touch hw (table + i) 1).map fun s => ((s, (r.2 + (mem (table + i)).toNat) % 2 ^ ws), false)

theorem sumByte_eq_some {ws i : ℕ} {r : Acpi ρ × ℕ} {u : (Acpi ρ × ℕ) × Bool}
    (h : sumByte mem hw ws table r i = some u) : hw.Covers r.1.pages (table + i) 1
      ∧ u = (({ r.1 with reads := (table + i, 1) :: r.1.reads },
        (r.2 + (mem (table + i)).toNat) % 2 ^ ws), false) := by
  obtain ⟨s, hs, rfl⟩ := Option.map_eq_some_iff.1 h
  obtain ⟨hc, rfl⟩ := touch_eq_some hs
  exact ⟨hc, rfl⟩

theorem checksum_eq (wi ws : ℕ) (s : Acpi ρ) (table : ℕ) : s.checksum mem hw wi ws table
    = (s.touch hw (table + 4) 4).bind fun s => stride (fun i => (i + 1) % 2 ^ wi)
      (tableLength mem table) (sumByte mem hw ws table) acpiRounds (s, 0) 0 := rfl

/-- The sum along some bytes. -/
theorem sum_over {ws : ℕ} (hws : 8 ≤ ws) : ∀ (l : List ℕ) (r : Acpi ρ × ℕ),
    (∀ i ∈ l, hw.Covers r.1.pages (table + i) 1) → ∃ r', strideOver (sumByte mem hw ws table) r l = some r'
      ∧ r'.2 % 2 ^ 8 = (r.2 + (l.map fun i => (mem (table + i)).toNat).sum) % 2 ^ 8
      ∧ r'.1.core = r.1.core
      ∧ ∀ limit, r'.1.Inside limit ↔ r.1.Inside limit ∧ ∀ i ∈ l, table + i + 1 ≤ limit
  | [], r, _ => ⟨r, rfl, rfl, rfl, fun limit => by simp⟩
  | i :: l, r, h => by
    obtain ⟨hi, h⟩ := List.forall_mem_cons.1 h
    obtain ⟨r', hrun, hsum, hcore, hin⟩ := sum_over hws l
      ({ r.1 with reads := (table + i, 1) :: r.1.reads }, (r.2 + (mem (table + i)).toNat) % 2 ^ ws) h
    refine ⟨r', ?_, hsum.trans ?_, hcore, fun limit => (hin limit).trans ?_⟩
    · rw [strideOver, sumByte, touch_eq hi]
      exact hrun
    · have hdvd : 2 ^ 8 ∣ 2 ^ ws := Nat.pow_dvd_pow 2 hws
      rw [List.map_cons, List.sum_cons, Nat.add_mod, Nat.mod_mod_of_dvd _ hdvd, ← Nat.add_mod,
        Nat.add_assoc]
    · simp only [inside_cons, List.forall_mem_cons]
      tauto

/-- A sum that comes to its end has read each byte from a mapped page. -/
theorem covers_of_sum {ws : ℕ} : ∀ (l : List ℕ) {r r' : Acpi ρ × ℕ},
    strideOver (sumByte mem hw ws table) r l = some r' → ∀ i ∈ l, hw.Covers r.1.pages (table + i) 1
  | [], _, _, _, _, hi => nomatch hi
  | j :: l, r, r', h, i, hi => by
    obtain ⟨u, hu, h⟩ := Option.bind_eq_some_iff.1 h
    obtain ⟨hj, rfl⟩ := sumByte_eq_some hu
    rcases List.mem_cons.1 hi with rfl | hi
    · exact hj
    · exact covers_of_sum l h i hi

/-- A checksum whose counter does not come to wrap. -/
theorem checksum_along {wi ws : ℕ} (hwi : wi ≤ 32) (hlen : tableLength mem table < 2 ^ wi)
    (h4 : hw.Covers s.pages (table + 4) 4) : s.checksum mem hw wi ws table
      = strideOver (sumByte mem hw ws table) ({ s with reads := (table + 4, 4) :: s.reads }, 0)
        (List.range (tableLength mem table)) := by
  have hmax : 2 ^ wi ≤ 2 ^ 32 := Nat.pow_le_pow_right (by decide) hwi
  have htrack := track_counter hlen (tableLength mem table) 0 (Nat.zero_add _)
  have hrounds : (List.range' 0 (tableLength mem table)).length < acpiRounds := by
    rw [List.length_range', acpiRounds]
    omega
  rw [checksum_eq, touch_eq h4, Option.bind_some, stride_of_track htrack hrounds, List.range_eq_range']

/-- It ends if the table is mapped. -/
theorem checksum_ends (wi ws : ℕ) (hwi : wi ≤ 32) (hws : 8 ≤ ws) (hlen : tableLength mem table < 2 ^ wi)
    (h4 : hw.Covers s.pages (table + 4) 4) (hc : hw.Covers s.pages table (tableLength mem table)) :
    ∃ s' sum, s.checksum mem hw wi ws table = some (s', sum)
      ∧ sum % 2 ^ 8 = byteSum mem table (tableLength mem table) % 2 ^ 8 ∧ s'.core = s.core
      ∧ ∀ limit, s'.Inside limit ↔ s.Inside limit ∧ table + 8 ≤ limit
        ∧ ∀ i < tableLength mem table, table + i + 1 ≤ limit := by
  rw [checksum_along hwi hlen h4]
  obtain ⟨r', hrun, hsum, hcore, hin⟩ := sum_over hws
    (List.range (tableLength mem table)) ({ s with reads := (table + 4, 4) :: s.reads }, 0)
    fun i hi => hc.sub (Nat.le_add_right _ _) (by have := List.mem_range.1 hi; omega)
  refine ⟨r'.1, r'.2, hrun, ?_, hcore, fun limit => (hin limit).trans ?_⟩
  · rw [hsum, Nat.zero_add, byteSum]
  · simp only [inside_cons, List.mem_range, Nat.add_assoc, Nat.reduceAdd]
    tauto

/-- And only then. -/
theorem covers_of_checksum {wi ws : ℕ} {r : Acpi ρ × ℕ} (hwi : wi ≤ 32)
    (hlen : tableLength mem table < 2 ^ wi) (h : s.checksum mem hw wi ws table = some r) :
    hw.Covers s.pages (table + 4) 4 ∧ hw.Covers s.pages table (tableLength mem table) := by
  have h4 : hw.Covers s.pages (table + 4) 4 := by
    obtain ⟨s₁, h1, -⟩ := Option.bind_eq_some_iff.1 h
    exact (touch_eq_some h1).1
  rw [checksum_along hwi hlen h4] at h
  exact ⟨h4, fun i hi => covers_of_sum _ h i (List.mem_range.2 hi) 0 Nat.one_pos⟩

/-- A checksum whose counter wraps before the length does not end, however long it runs. -/
theorem checksum_never {wi ws : ℕ} (s : Acpi ρ) (hlen : 2 ^ wi ≤ tableLength mem table) :
    s.checksum mem hw wi ws table = none := by
  have hbrk : ∀ (r : Acpi ρ × ℕ) i u, sumByte mem hw ws table r i = some u → u.2 = false := by
    intro r i u h
    rw [(sumByte_eq_some h).2]
  rw [checksum_eq]
  rcases s.touch hw (table + 4) 4 with _ | s₁
  · rfl
  · rw [Option.bind_some, stride_counter_never (Nat.two_pow_pos wi) hlen hbrk (Nat.two_pow_pos wi)]

end Acpi

end RTLKIM

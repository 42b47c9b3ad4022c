import RTLKIM.Acpi
import RTLKIM.Proofs.MmapHw

/-!
# The pages that the parser of the tables maps

What `acpi.c` needs of `kernel_mmap_hw` holds of the call on well-formed tables in memory: it takes no
page away, and the page is there when it says so. The pages of the window, where no table of the firmware
can be, are not asked for.
-/

namespace RTLKIM

namespace PageMemory

variable {s : PageMemory} {x y a : ℕ}

/-- The addresses of a page have one entry. -/
theorem walk_congr (h : x / 4096 = y / 4096) : s.memory.walk x = s.memory.walk y := by
  have hdir : x / 2 ^ 22 = y / 2 ^ 22 := by omega
  have hpage : x / 2 ^ 12 = y / 2 ^ 12 := h
  unfold Memory.walk
  rw [hdir, hpage]

/-- `kernel_mmap_hw` of a page on itself, read-only. -/
def mmapPage (s : PageMemory) (a : ℕ) : Option (PageMemory × PagingErr) :=
  s.kernelMmapHw a a kernelPageSize true false

/-- What is known of the call below the window. -/
theorem PageTables.mmapPage (h : s.PageTables) (ha : a + kernelPageSize ≤ pagingRecurPgTable) :
    ∃ r err, s.mmapPage a = some (r, err) ∧ r.PageTables
      ∧ (∀ x < pagingRecurPgTable, (s.memory.walk x).isSome → (r.memory.walk x).isSome)
      ∧ (a % kernelPageSize = 0 → err = .pool .noErr ∨ err = .mappingAlreadyExists →
        ∀ i < kernelPageSize, (r.memory.walk (a + i)).isSome) := by
  have hword : a + kernelPageSize ≤ 2 ^ 32 := ha.trans (by decide)
  obtain ⟨r, err, hr, htables, hkeeps, hok, hexists⟩ :=
    h.kernelMmapHw_keeps true false (by decide) rfl hword ha
  refine ⟨r, err, hr, htables, hkeeps, fun hmod herr i hi => ?_⟩
  rcases herr with herr | herr
  · exact hok herr i hi
  · -- the page that is there already is the one asked for
    obtain ⟨j, hj, hsome⟩ := hexists herr
    have hpage : (a + i) / 4096 = (a + j) / 4096 := by
      simp only [kernelPageSize] at hmod hi hj
      omega
    rw [walk_congr hpage]
    exact hkeeps _ (by omega) hsome

end PageMemory

/-- The tables that are well-formed. -/
abbrev MappedTables : Type := {s : PageMemory // s.PageTables}

namespace MappedTables

variable {a : ℕ}

/-- The call on well-formed tables, for a page below the window. -/
def mmapHw (s : MappedTables) (a : ℕ) : MappedTables × PagingErr :=
  if ha : a + kernelPageSize ≤ pagingRecurPgTable then
    match hr : s.1.mmapPage a with
    | some (r, err) => (⟨r, by
        obtain ⟨r', err', hr', htables, -⟩ := s.2.mmapPage ha
        obtain ⟨rfl, -⟩ : r' = r ∧ err' = err := by simpa using hr'.symm.trans hr
        exact htables⟩, err)
    | none => (s, .pool .unauthorizedAction)
  else (s, .pool .unauthorizedAction)

theorem mmapHw_eq (s : MappedTables) (ha : a + kernelPageSize ≤ pagingRecurPgTable) :
    s.1.mmapPage a = some ((s.mmapHw a).1.1, (s.mmapHw a).2) := by
  obtain ⟨r, err, hr, -⟩ := s.2.mmapPage ha
  unfold mmapHw
  rw [dif_pos ha]
  split
  · next r' err' hr' => exact hr'
  · next hr' =>
    rw [hr] at hr'
    cases hr'

theorem mmapHw_spec (s : MappedTables) (ha : a + kernelPageSize ≤ pagingRecurPgTable) :
    (∀ x < pagingRecurPgTable, (s.1.memory.walk x).isSome → ((s.mmapHw a).1.1.memory.walk x).isSome)
      ∧ (a % kernelPageSize = 0 →
        (s.mmapHw a).2 = .pool .noErr ∨ (s.mmapHw a).2 = .mappingAlreadyExists →
          ∀ i < kernelPageSize, ((s.mmapHw a).1.1.memory.walk (a + i)).isSome) := by
  obtain ⟨r, err, hr, -, hspec⟩ := s.2.mmapPage ha
  obtain ⟨hr₁, hr₂⟩ := Prod.mk.inj (Option.some.inj (hr.symm.trans (s.mmapHw_eq ha)))
  rwa [hr₁, hr₂] at hspec

/-- The laws of the pages hold of them. -/
def hwPages : HwPages MappedTables where
  mmapHw := mmapHw
  mapped s x := x < pagingRecurPgTable ∧ (s.1.memory.walk x).isSome
  keeps := by
    intro s a x h
    simp only [decide_eq_true_eq] at h ⊢
    by_cases ha : a + kernelPageSize ≤ pagingRecurPgTable
    · exact ⟨h.1, (s.mmapHw_spec ha).1 x h.1 h.2⟩
    · rw [mmapHw, dif_neg ha]
      exact h
  maps := by
    intro s a i hmod hi herr
    simp only [decide_eq_true_eq]
    by_cases ha : a + kernelPageSize ≤ pagingRecurPgTable
    · exact ⟨(Nat.add_lt_add_left hi a).trans_le ha, (s.mmapHw_spec ha).2 hmod herr i hi⟩
    · rw [mmapHw, dif_neg ha] at herr
      simp at herr

end MappedTables

end RTLKIM

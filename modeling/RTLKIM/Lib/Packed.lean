import Mathlib.Data.Nat.Bitwise

/-!
# An address and flags in one word

A word holds the number of a page from bit 12 on and flags below. Masks read one or the other.
-/

namespace RTLKIM

variable {f k n : ℕ}

theorem testBit_page_low {i : ℕ} (hi : i < 12) : (n * 4096).testBit i = false := by
  rw [show 4096 = 2 ^ 12 from rfl, Nat.testBit_mul_two_pow]
  simp [show ¬ 12 ≤ i by omega]

theorem testBit_flags_high {i : ℕ} (hk : k < 4096) (hi : 12 ≤ i) : k.testBit i = false :=
  Nat.testBit_lt_two_pow (hk.trans_le (Nat.pow_le_pow_right Nat.zero_lt_two hi))

/-- Flags are read off a word. -/
theorem packed_and_flags (hk : k < 4096) : (n * 4096 ||| f) &&& k = f &&& k := by
  refine Nat.eq_of_testBit_eq fun i => ?_
  rw [Nat.testBit_and, Nat.testBit_or, Nat.testBit_and]
  by_cases hi : i < 12
  · rw [testBit_page_low hi, Bool.false_or]
  · rw [testBit_flags_high hk (by omega), Bool.and_false, Bool.and_false]

theorem testBit_mask : ∀ i < 32, (0xFFFFF000 : ℕ).testBit i = decide (12 ≤ i) := by decide

/-- The page is read off a word. -/
theorem packed_and_mask (hn : n < 2 ^ 20) (hf : f < 4096) :
    (n * 4096 ||| f) &&& 0xFFFFF000 = n * 4096 := by
  refine Nat.eq_of_testBit_eq fun i => ?_
  rw [Nat.testBit_and, Nat.testBit_or]
  rcases lt_or_ge i 12 with hi | hi
  · rw [testBit_mask i (by omega), testBit_page_low hi]
    simp [show ¬ 12 ≤ i by omega]
  · rw [testBit_flags_high hf hi, Bool.or_false]
    rcases lt_or_ge i 32 with hi' | hi'
    · rw [testBit_mask i hi']
      simp [hi]
    · have h32 : 2 ^ 32 ≤ 2 ^ i := Nat.pow_le_pow_right (by decide) hi'
      have hlt : n * 4096 < 2 ^ 32 := by omega
      rw [Nat.testBit_lt_two_pow (hlt.trans_le h32), Bool.false_and]

theorem packed_of_divMod (n : ℕ) : n / 4096 * 4096 ||| n % 4096 = n := by
  have h := Nat.two_pow_add_eq_or_of_lt (i := 12) (Nat.mod_lt n (by decide)) (n / 4096)
  rw [Nat.mul_comm]
  exact h.symm.trans (Nat.div_add_mod n (2 ^ 12))

/-- An address rounded down to its page. -/
theorem and_mask (hn : n < 2 ^ 32) : n &&& 0xFFFFF000 = n / 4096 * 4096 := by
  have h := packed_and_mask (n := n / 4096) (f := n % 4096) (by omega) (Nat.mod_lt n (by decide))
  rwa [packed_of_divMod] at h

/-- The entries of a page in the directory and in the table. -/
theorem page_shift (n : ℕ) :
    (n * 4096) >>> 22 = n / 1024 ∧ (n * 4096) >>> 12 &&& 0x3FF = n % 1024 := by
  have h1 : n * 4096 / 2 ^ 22 = n / 1024 := Nat.mul_div_mul_right n 1024 (by decide)
  have h2 : n * 4096 / 2 ^ 12 = n := Nat.mul_div_cancel n (by decide)
  refine ⟨(Nat.shiftRight_eq_div_pow _ _).trans h1, ?_⟩
  rw [Nat.shiftRight_eq_div_pow, h2]
  exact Nat.and_two_pow_sub_one_eq_mod n 10

end RTLKIM

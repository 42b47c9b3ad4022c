import Mathlib.Data.Nat.ModEq

/-!
# Unsigned words of 32 bits

A `uint32_t` is a natural number below `2 ^ 32`; sums and differences wrap.
-/

namespace RTLKIM

/-- `a + b` on `uint32_t`. -/
def add32 (a b : ℕ) : ℕ := (a + b) % 2 ^ 32

/-- `a - b` on `uint32_t`. -/
def sub32 (a b : ℕ) : ℕ := (a + (2 ^ 32 - b % 2 ^ 32)) % 2 ^ 32

/-- `a * b` on `uint32_t`. -/
def mul32 (a b : ℕ) : ℕ := (a * b) % 2 ^ 32

theorem add32_lt (a b : ℕ) : add32 a b < 2 ^ 32 := Nat.mod_lt _ (Nat.two_pow_pos 32)

theorem sub32_lt (a b : ℕ) : sub32 a b < 2 ^ 32 := Nat.mod_lt _ (Nat.two_pow_pos 32)

theorem add32_of_lt {a b : ℕ} (h : a + b < 2 ^ 32) : add32 a b = a + b := Nat.mod_eq_of_lt h

theorem add32_of_eq {a b : ℕ} (h : a + b = 2 ^ 32) : add32 a b = 0 := by
  unfold add32
  rw [h, Nat.mod_self]

theorem add32_zero {a : ℕ} (h : a < 2 ^ 32) : add32 a 0 = a := Nat.mod_eq_of_lt h

theorem add32_add32 (a b c : ℕ) : add32 (add32 a b) c = add32 a (b + c) := by
  unfold add32
  rw [Nat.mod_add_mod, Nat.add_assoc]

/-- Nothing is below a sum that reaches the end of the address space. -/
theorem lt_add32_iff {a b n : ℕ} (h : a + b ≤ 2 ^ 32) :
    n < add32 a b ↔ n < a + b ∧ a + b < 2 ^ 32 := by
  rcases h.lt_or_eq with hlt | heq
  · rw [add32_of_lt hlt, and_iff_left hlt]
  · rw [add32_of_eq heq, heq]
    exact iff_of_false (Nat.not_lt_zero n) fun hc => lt_irrefl _ hc.2

theorem sub32_of_le {a b : ℕ} (hb : b ≤ a) (ha : a < 2 ^ 32) : sub32 a b = a - b := by
  unfold sub32
  omega

/-- A difference below nothing is from the end of the numbers. -/
theorem le_sub32 {a b n : ℕ} (hab : a < b) (hb : b + n ≤ 2 ^ 32) : n ≤ sub32 a b := by
  unfold sub32
  omega

/-- Only nothing can be taken away without a change. -/
theorem sub32_eq_self {a b : ℕ} (hb : b < 2 ^ 32) (h : sub32 a b = a) : b = 0 := by
  unfold sub32 at h
  omega

theorem mul32_lt (a b : ℕ) : mul32 a b < 2 ^ 32 := Nat.mod_lt _ (Nat.two_pow_pos 32)

theorem mul32_of_lt {a b : ℕ} (h : a * b < 2 ^ 32) : mul32 a b = a * b := Nat.mod_eq_of_lt h

-- proofs use the lemmas above; unfolding a remainder by `2 ^ 32` of an unknown number runs away
attribute [irreducible] add32 sub32 mul32

end RTLKIM

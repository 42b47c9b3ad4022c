import Mathlib.Tactic.Linarith
import Mathlib.Tactic.Ring
import RTLKIM.Udivmoddi4

/-!
# The division of 64 bits is right

While the denominator is moved, the bit of the quotient is moved with it. While it comes back, the
quotient times the denominator, with what is left of the numerator, is the numerator; and what is left
is less than the denominator where it stood a round before.
-/

namespace RTLKIM

theorem toNat_shiftRight_one (a : UInt64) : (a >>> 1).toNat = a.toNat / 2 := by
  rw [UInt64.toNat_shiftRight, Nat.shiftRight_eq_div_pow]
  rfl

theorem toNat_shiftLeft_one {a : UInt64} (h : a.toNat < 2 ^ 63) :
    (a <<< 1).toNat = a.toNat * 2 := by
  rw [UInt64.toNat_shiftLeft, Nat.shiftLeft_eq]
  exact Nat.mod_eq_of_lt (show a.toNat * 2 < 2 ^ 64 by omega)

theorem toInt64_nonneg {a : UInt64} : 0 ≤ a.toInt64 ↔ a.toNat < 2 ^ 63 := by
  have ha := a.toNat_lt
  have hint : a.toInt64.toInt = a.toBitVec.toInt := rfl
  rw [Int64.le_iff_toInt_le, hint, BitVec.toInt_eq_toNat_cond, UInt64.toNat_toBitVec]
  change (0 : ℤ) ≤ _ ↔ _
  split_ifs with h <;> omega

namespace Udivmoddi4

variable {num den : UInt64} {s : Udivmoddi4}

/-! ## The way to the left -/

/-- The state after `k` rounds of the first loop. -/
structure Justified (num den : UInt64) (k : ℕ) (s : Udivmoddi4) : Prop where
  num_eq : s.num = num
  quot_eq : s.quot = 0
  den_eq : s.den.toNat = den.toNat * 2 ^ k
  qbit_eq : s.qbit.toNat = 2 ^ k

/-- A denominator that can move has moved less than 63 times. -/
theorem Justified.lt {k : ℕ} (h : Justified num den k s) (hden : 0 < den.toNat)
    (hs : s.den.toNat < 2 ^ 63) : k < 63 := by
  have hle : 2 ^ k ≤ s.den.toNat := by
    rw [h.den_eq]
    exact Nat.le_mul_of_pos_left _ hden
  exact (Nat.pow_lt_pow_iff_right (by omega)).1 (lt_of_le_of_lt hle hs)

theorem Justified.justify {k : ℕ} (h : Justified num den k s) (hden : 0 < den.toNat)
    (hs : s.den.toNat < 2 ^ 63) : Justified num den (k + 1) s.justify where
  num_eq := h.num_eq
  quot_eq := h.quot_eq
  den_eq := by
    rw [pow_succ, ← mul_assoc, ← h.den_eq]
    exact toNat_shiftLeft_one hs
  qbit_eq := by
    have hqbit : s.qbit.toNat < 2 ^ 63 := by
      rw [h.qbit_eq]
      exact Nat.pow_lt_pow_right (by omega) (h.lt hden hs)
    rw [pow_succ, ← h.qbit_eq]
    exact toNat_shiftLeft_one hqbit

theorem justified_init : Justified num den 0 ⟨num, den, 0, 1⟩ :=
  ⟨rfl, rfl, (mul_one _).symm, rfl⟩

/-! ## The way back -/

/-- The state with `n` rounds of the second loop to make. -/
structure Left (num den : UInt64) (n : ℕ) (s : Udivmoddi4) : Prop where
  qbit_eq : s.qbit.toNat = 2 ^ n / 2
  den_eq : s.den.toNat = den.toNat * 2 ^ n / 2
  num_lt : s.num.toNat < den.toNat * 2 ^ n
  num_eq : num.toNat = s.quot.toNat * den.toNat + s.num.toNat

/-- The numerator is less than twice a denominator whose first bit is set. -/
theorem Justified.left {k : ℕ} (h : Justified num den k s) (hs : 2 ^ 63 ≤ s.den.toNat) :
    Left num den (k + 1) s := by
  have htwice : den.toNat * 2 ^ (k + 1) = s.den.toNat * 2 := by rw [h.den_eq, pow_succ, mul_assoc]
  refine ⟨?_, ?_, ?_, ?_⟩
  · rw [h.qbit_eq, pow_succ, Nat.mul_div_cancel _ Nat.two_pos]
  · rw [htwice, Nat.mul_div_cancel _ Nat.two_pos]
  · have hnum := s.num.toNat_lt
    omega
  · rw [h.num_eq, h.quot_eq]
    change num.toNat = 0 * den.toNat + num.toNat
    rw [Nat.zero_mul, Nat.zero_add]

theorem Left.qbit_succ {n : ℕ} (h : Left num den (n + 1) s) : s.qbit.toNat = 2 ^ n := by
  rw [h.qbit_eq, pow_succ, Nat.mul_div_cancel _ Nat.two_pos]

theorem Left.den_succ {n : ℕ} (h : Left num den (n + 1) s) : s.den.toNat = den.toNat * 2 ^ n := by
  rw [h.den_eq, pow_succ, ← mul_assoc, Nat.mul_div_cancel _ Nat.two_pos]

/-- The bit of the quotient fits in what the quotient may still grow to. -/
theorem Left.quot_add {n : ℕ} (h : Left num den (n + 1) s) (hden : 0 < den.toNat)
    (hle : s.den.toNat ≤ s.num.toNat) : (s.quot + s.qbit).toNat = s.quot.toNat + 2 ^ n := by
  have hnum := num.toNat_lt
  have hbound : (s.quot.toNat + 2 ^ n) * den.toNat ≤ num.toNat := by
    rw [h.num_eq, add_mul, mul_comm (2 ^ n), ← h.den_succ]
    exact Nat.add_le_add_left hle _
  have hquot : s.quot.toNat + 2 ^ n ≤ num.toNat :=
    (Nat.le_mul_of_pos_right _ hden).trans hbound
  rw [UInt64.toNat_add, h.qbit_succ]
  exact Nat.mod_eq_of_lt (lt_of_le_of_lt hquot hnum)

/-- What is left is below the denominator before it moves. -/
theorem Left.shift {n : ℕ} (h : Left num den (n + 1) s) {num' quot' : UInt64}
    (hlt : num'.toNat < s.den.toNat) (heq : num.toNat = quot'.toNat * den.toNat + num'.toNat) :
    Left num den n ⟨num', s.den >>> 1, quot', s.qbit >>> 1⟩ where
  qbit_eq := by rw [toNat_shiftRight_one, h.qbit_succ]
  den_eq := by rw [toNat_shiftRight_one, h.den_succ]
  num_lt := h.den_succ ▸ hlt
  num_eq := heq

theorem Left.subtract {n : ℕ} (h : Left num den (n + 1) s) (hden : 0 < den.toNat) :
    Left num den n s.subtract := by
  have hlt : s.num.toNat < s.den.toNat * 2 := by
    rw [h.den_succ, mul_assoc, ← pow_succ]
    exact h.num_lt
  unfold Udivmoddi4.subtract
  by_cases hle : s.den ≤ s.num
  · have hle' : s.den.toNat ≤ s.num.toNat := UInt64.le_iff_toNat_le.1 hle
    have hsub : (s.num - s.den).toNat = s.num.toNat - s.den.toNat := UInt64.toNat_sub_of_le _ _ hle
    rw [if_pos hle]
    refine h.shift ?_ ?_
    · rw [hsub]
      omega
    · rw [hsub, h.quot_add hden hle', add_mul, mul_comm (2 ^ n), ← h.den_succ, h.num_eq]
      omega
  · rw [if_neg hle]
    refine h.shift ?_ h.num_eq
    exact Nat.lt_of_not_le fun hge => hle (UInt64.le_iff_toNat_le.2 hge)

/-! ## The loops -/

theorem justify_loop (num : UInt64) (hden : 0 < den.toNat) {fuel : ℕ} (hfuel : 63 < fuel) :
    ∃ s k, whileLoop (fun s => 0 ≤ s.den.toInt64) justify fuel ⟨num, den, 0, 1⟩ = some s
      ∧ k ≤ 63 ∧ Left num den (k + 1) s := by
  obtain ⟨s, n, hloop, htest, k, hk, h⟩ :=
    whileLoop_inv (fun s => 0 ≤ s.den.toInt64) justify
      (P := fun n s => ∃ k, k + n = 63 ∧ Justified num den k s) (fun n s ⟨k, hk, h⟩ htest => by
        have hs : s.den.toNat < 2 ^ 63 := toInt64_nonneg.1 (of_decide_eq_true htest)
        have hlt := h.lt hden hs
        exact ⟨n - 1, by omega, k + 1, by omega, h.justify hden hs⟩)
      ⟨0, rfl, justified_init⟩ hfuel
  have hs : 2 ^ 63 ≤ s.den.toNat :=
    Nat.le_of_not_lt fun hlt => of_decide_eq_false htest (toInt64_nonneg.2 hlt)
  exact ⟨s, k, hloop, by omega, h.left hs⟩

theorem subtract_loop {n : ℕ} (h : Left num den n s) (hden : 0 < den.toNat) {fuel : ℕ}
    (hfuel : n < fuel) :
    ∃ s', whileLoop (fun s => s.qbit ≠ 0) subtract fuel s = some s' ∧ Left num den 0 s' := by
  obtain ⟨s', m, hloop, htest, h'⟩ := whileLoop_inv (fun s => s.qbit ≠ 0) subtract
    (P := Left num den) (fun n s h htest => by
      have hqbit : s.qbit ≠ 0 := of_decide_eq_true htest
      rcases n with _ | n
      · exact absurd (UInt64.toNat_inj.1 h.qbit_eq) hqbit
      · exact ⟨n, Nat.lt_succ_self n, h.subtract hden⟩) h hfuel
  have hqbit : s'.qbit = 0 := not_not.1 (of_decide_eq_false htest)
  refine ⟨s', hloop, ?_⟩
  rcases m with _ | m
  · exact h'
  · have hzero : s'.qbit.toNat = 0 := congrArg UInt64.toNat hqbit
    rw [h'.qbit_succ] at hzero
    exact absurd hzero (Nat.two_pow_pos m).ne'

end Udivmoddi4

open Udivmoddi4

/-- The loops end, and the quotient and the remainder are those of the division. -/
theorem udivmoddi4_divides (num : UInt64) {den : UInt64} (hden : 0 < den) (remP : Option UInt64)
    {fuel : ℕ} (hfuel : 64 < fuel) :
    ∃ quot rem, udivmoddi4 fuel num den remP = some (quot, remP.map fun _ => rem)
      ∧ num.toNat = quot.toNat * den.toNat + rem.toNat ∧ rem < den := by
  have hpos : 0 < den.toNat := UInt64.lt_iff_toNat_lt.1 hden
  have hne : den ≠ 0 := UInt64.pos_iff_ne_zero.1 hden
  obtain ⟨s, k, hjustify, hk, hleft⟩ := justify_loop num hpos (Nat.lt_of_succ_lt hfuel)
  obtain ⟨s', hsubtract, h⟩ :=
    subtract_loop hleft hpos (lt_of_le_of_lt (Nat.succ_le_succ hk) hfuel)
  refine ⟨s'.quot, s'.num, ?_, h.num_eq, ?_⟩
  · unfold udivmoddi4
    simp only []
    rw [if_neg hne, hjustify, Option.bind_some, hsubtract, Option.map_some]
  · rw [UInt64.lt_iff_toNat_lt]
    exact lt_of_lt_of_eq h.num_lt (mul_one _)

/-- The greatest value, by 10. -/
theorem udivmoddi4_divides_ten : (0 : UInt64) < 10 ∧ ∃ quot rem,
    udivmoddi4 65 0xFFFFFFFFFFFFFFFF 10 (some 0) = some (quot, some rem)
      ∧ (0xFFFFFFFFFFFFFFFF : UInt64).toNat = quot.toNat * (10 : UInt64).toNat + rem.toNat ∧ rem < 10 :=
  ⟨by decide, udivmoddi4_divides _ (by decide) (some 0) (by decide)⟩

end RTLKIM

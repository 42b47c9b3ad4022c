import RTLKIM.Lib.Radix
import RTLKIM.QDivRem
import Mathlib.Data.Nat.Bitwise

/-!
# The words and the loops of the division by digits

`num` is the number in a part of an array, and each loop is an equation of such numbers. An estimate is
the greatest digit that the leading digits allow, so it is the digit of the quotient or the next one.
-/

namespace RTLKIM

namespace Digits

variable {p : Digits} {i : ℕ}

theorem get_of_lt (h : i < 5) : p.get i = some (p i) := if_pos h

theorem set_of_lt (h : i < 5) (d : UInt16) : p.set i d = some (Function.update p i d) := if_pos h

/-- The number that `n` digits from `s` on are. -/
def num (p : Digits) (s n : ℕ) : ℕ := radix (2 ^ 16) (fun i => (p i).toNat) s n

theorem num_lt (p : Digits) (s n : ℕ) : p.num s n < (2 ^ 16) ^ n := radix_lt fun _ _ => UInt16.toNat_lt _

theorem num_succ (p : Digits) (s n : ℕ) : p.num s (n + 1) = p.num s n * 2 ^ 16 + (p (s + n)).toNat := rfl

theorem num_head (p : Digits) (s n : ℕ) :
    p.num s (n + 1) = (p s).toNat * (2 ^ 16) ^ n + p.num (s + 1) n := radix_head n

theorem num_tail {p : Digits} {s : ℕ} (h : p s = 0) (n : ℕ) : p.num s (n + 1) = p.num (s + 1) n := by
  rw [num_head, h]
  exact (congrArg (· + _) (Nat.zero_mul _)).trans (Nat.zero_add _)

/-- A number below a power of the base has a zero before its digits. -/
theorem head_eq_zero {p : Digits} {s n : ℕ} (h : p.num s (n + 1) < (2 ^ 16) ^ n) : p s = 0 :=
  UInt16.toNat_inj.1 (head_eq_zero_of_lt h)

theorem num_congr {p p' : Digits} {s n : ℕ} (h : ∀ i, s ≤ i → i < s + n → p i = p' i) :
    p.num s n = p'.num s n :=
  radix_congr fun i hi => congrArg UInt16.toNat (h _ (Nat.le_add_right s i) (Nat.add_lt_add_left hi s))

/-- A digit out of the part is not in the number. -/
theorem num_update {p : Digits} {s n i : ℕ} (h : i < s ∨ s + n ≤ i) (d : UInt16) :
    num (Function.update p i d) s n = p.num s n :=
  num_congr fun _ h1 h2 => Function.update_of_ne (by omega) _ _

end Digits

namespace QDivRem

open Digits

/-! ## Words -/

theorem toNat_hhalf (x : UInt32) : (hhalf x).toNat = x.toNat / 2 ^ 16 := by
  unfold hhalf
  rw [UInt32.toNat_shiftRight, Nat.shiftRight_eq_div_pow]
  rfl

theorem toNat_lhalf (x : UInt32) : (lhalf x).toNat = x.toNat % 2 ^ 16 := by
  unfold lhalf
  rw [UInt32.toNat_and]
  exact Nat.and_two_pow_sub_one_eq_mod x.toNat 16

theorem toNat_combine {a b : UInt32} (ha : a.toNat < 2 ^ 16) (hb : b.toNat < 2 ^ 16) :
    (combine a b).toNat = a.toNat * 2 ^ 16 + b.toNat := by
  unfold combine
  have hshift : (a <<< 16).toNat = a.toNat <<< 16 := by
    rw [UInt32.toNat_shiftLeft]
    exact Nat.mod_eq_of_lt (by rw [Nat.shiftLeft_eq]; change a.toNat * 2 ^ 16 < 2 ^ 32; omega)
  rw [UInt32.toNat_or, hshift, ← Nat.shiftLeft_add_eq_or_of_lt hb, Nat.shiftLeft_eq]

theorem toUInt32_lt (d : UInt16) : d.toUInt32.toNat < 2 ^ 16 := by
  rw [UInt16.toNat_toUInt32]
  exact d.toNat_lt

theorem toNat_digit {x : UInt32} (h : x.toNat < 2 ^ 16) : x.toUInt16.toNat = x.toNat :=
  (UInt32.toNat_toUInt16 x).trans (Nat.mod_eq_of_lt h)

theorem toNat_lhalf_digit (x : UInt32) : (lhalf x).toUInt16.toNat = x.toNat % 2 ^ 16 := by
  rw [toNat_digit (by rw [toNat_lhalf]; exact Nat.mod_lt _ (by decide)), toNat_lhalf]

theorem toNat_hhalf_digit (x : UInt32) : (hhalf x).toUInt16.toNat = x.toNat / 2 ^ 16 := by
  have := x.toNat_lt
  rw [toNat_digit (by rw [toNat_hhalf]; omega), toNat_hhalf]

/-- The digits of a number are those it is made of. -/
theorem num_split (p : Digits) (x : UInt64) : num (split p x) 1 4 = x.toNat := by
  have hx := x.toNat_lt
  have hh : (x >>> 32).toUInt32.toNat = x.toNat / 2 ^ 32 := by
    rw [UInt64.toNat_toUInt32, UInt64.toNat_shiftRight, Nat.shiftRight_eq_div_pow]
    exact Nat.mod_eq_of_lt (by change x.toNat / 2 ^ 32 < 2 ^ 32; omega)
  have hl : x.toUInt32.toNat = x.toNat % 2 ^ 32 := UInt64.toNat_toUInt32 x
  have hnum : num (split p x) 1 4 = ((((hhalf (x >>> 32).toUInt32).toUInt16.toNat) * 2 ^ 16
      + (lhalf (x >>> 32).toUInt32).toUInt16.toNat) * 2 ^ 16
      + (hhalf x.toUInt32).toUInt16.toNat) * 2 ^ 16 + (lhalf x.toUInt32).toUInt16.toNat := by
    simp only [num_succ, split, Nat.reduceAdd]
    simp [num, radix]
  rw [hnum, toNat_hhalf_digit, toNat_lhalf_digit, toNat_hhalf_digit, toNat_lhalf_digit, hh, hl]
  omega

theorem toNat_join (d₁ d₂ d₃ d₄ : UInt16) : (join d₁ d₂ d₃ d₄).toNat
    = ((d₁.toNat * 2 ^ 16 + d₂.toNat) * 2 ^ 16 + d₃.toNat) * 2 ^ 16 + d₄.toNat := by
  have h₁ := d₁.toNat_lt
  have h₂ := d₂.toNat_lt
  have h₃ := d₃.toNat_lt
  have h₄ := d₄.toNat_lt
  have hh : (combine d₁.toUInt32 d₂.toUInt32).toUInt64.toNat = d₁.toNat * 2 ^ 16 + d₂.toNat := by
    rw [UInt32.toNat_toUInt64, toNat_combine (by simpa using h₁) (by simpa using h₂)]
    simp
  have hl : (combine d₃.toUInt32 d₄.toUInt32).toUInt64.toNat = d₃.toNat * 2 ^ 16 + d₄.toNat := by
    rw [UInt32.toNat_toUInt64, toNat_combine (by simpa using h₃) (by simpa using h₄)]
    simp
  have hlow : (combine d₃.toUInt32 d₄.toUInt32).toUInt64.toNat < 2 ^ 32 := by
    rw [hl]
    omega
  unfold join
  rw [UInt64.toNat_or, UInt64.toNat_shiftLeft, hh]
  have hmod : (d₁.toNat * 2 ^ 16 + d₂.toNat) <<< ((32 : UInt64).toNat % 64) % 2 ^ 64
      = (d₁.toNat * 2 ^ 16 + d₂.toNat) <<< 32 := by
    refine Nat.mod_eq_of_lt ?_
    rw [Nat.shiftLeft_eq]
    change (d₁.toNat * 2 ^ 16 + d₂.toNat) * 2 ^ 32 < 2 ^ 64
    omega
  rw [hmod, ← Nat.shiftLeft_add_eq_or_of_lt hlow, Nat.shiftLeft_eq, hl]
  omega

theorem joinDigits_eq (p : Digits) : ∃ x, joinDigits p = some x ∧ x.toNat = p.num 1 4 :=
  ⟨join (p 1) (p 2) (p 3) (p 4), rfl, by rw [toNat_join]; simp [num, radix]⟩

/-! ## Leading zeros -/

/-- The digits after the first, up to `i`, are zero. -/
def ZerosTo (p : Digits) (i : ℕ) : Prop := ∀ k, 1 ≤ k → k ≤ i → p k = 0

theorem ZerosTo.succ {p : Digits} {i : ℕ} (h : ZerosTo p i) (hi : p (i + 1) = 0) :
    ZerosTo p (i + 1) := fun k h1 hk => by
  rcases Nat.lt_or_eq_of_le hk with hlt | rfl
  · exact h k h1 (Nat.lt_succ_iff.1 hlt)
  · exact hi

/-- The number without its leading zeros. -/
theorem ZerosTo.num_eq {p : Digits} {i n : ℕ} (h : ZerosTo p i) : p.num 1 (i + n) = p.num (i + 1) n := by
  have := radix_zeros (b := 2 ^ 16) (a := fun i => (p i).toNat) (s := 1) (m := i)
    (fun k hk => by simp [h (1 + k) (by omega) (by omega)]) n
  rwa [add_comm 1 i] at this

theorem skipZeros_spec {v : Digits} : ∀ {n p : ℕ}, n + 1 + p = 4 → 1 ≤ n → ZerosTo v p →
    (skipZeros v (n + 1) p = some (1, 2) ∧ ZerosTo v 3)
      ∨ ∃ n' p', skipZeros v (n + 1) p = some (n', p') ∧ 2 ≤ n' ∧ n' + p' = 4 ∧ ZerosTo v p'
        ∧ v (p' + 1) ≠ 0
  | n, p, hp, hn, hz => by
    rw [skipZeros, get_of_lt (by omega)]
    by_cases hd : v (p + 1) = 0
    · by_cases h1 : n = 1
      · obtain rfl : p = 2 := by omega
        subst h1
        exact .inl ⟨by simp [hd], hz.succ hd⟩
      · obtain ⟨n, rfl⟩ := Nat.exists_eq_succ_of_ne_zero (by omega : n ≠ 0)
        have ih := skipZeros_spec (n := n) (p := p + 1) (by omega) (by omega) (hz.succ hd)
        have h0 : n ≠ 0 := by omega
        simpa [hd, h0] using ih
    · exact .inr ⟨n + 1, p, by simp [hd], by omega, hp, hz, hd⟩

theorem skipDividend_spec {u : Digits} {n : ℕ} (hn : 2 ≤ n) : ∀ {m p : ℕ}, m + n + p = 4 → ZerosTo u p →
    (2 ^ 16) ^ (n - 1) ≤ u.num (p + 1) (m + n) →
    ∃ m' p', skipDividend u m p = some (m', p') ∧ m' + n + p' = 4 ∧ ZerosTo u p'
  | m, p, hp, hz, hle => by
    obtain ⟨n, rfl⟩ := Nat.exists_eq_add_of_le' hn
    rw [skipDividend.eq_def, get_of_lt (by omega)]
    by_cases hd : u (p + 1) = 0
    · have hhead : u.num (p + 1) (m + (n + 2)) = u.num (p + 1 + 1) (m + (n + 1)) := by
        rw [show m + (n + 2) = m + (n + 1) + 1 by omega, num_tail hd]
      rcases m with _ | m
      · have hlt := u.num_lt (p + 1 + 1) (0 + (n + 1))
        rw [← hhead, Nat.zero_add (n + 1)] at hlt
        exact absurd hle (Nat.not_le_of_lt hlt)
      · have ih := skipDividend_spec hn (m := m) (p := p + 1) (by omega) (hz.succ hd)
          (by rw [show m + (n + 2) = m + 1 + (n + 1) by omega, ← hhead]; exact hle)
        simpa [hd] using ih
    · exact ⟨m, p, by simp [hd], hp, hz⟩

/-- The leading digit of a divisor is not zero: it is a power of the base at least. -/
theorem le_num {p : Digits} {s n : ℕ} (h : p s ≠ 0) : (2 ^ 16) ^ n ≤ p.num s (n + 1) := by
  rw [num_head]
  have hpos : 0 < (p s).toNat := Nat.pos_of_ne_zero fun h0 => h (UInt16.toNat_inj.1 h0)
  exact (Nat.le_mul_of_pos_left _ hpos).trans (Nat.le_add_right _ _)

/-! ## One digit -/

/-- A digit of a short division. -/
theorem toNat_short {r t : UInt32} {d : UInt16} (ht : t.toNat < 2 ^ 16) (hr : r.toNat < t.toNat) :
    (combine r d.toUInt32 / t).toUInt16.toNat = (r.toNat * 2 ^ 16 + d.toNat) / t.toNat
      ∧ (combine r d.toUInt32 % t).toNat = (r.toNat * 2 ^ 16 + d.toNat) % t.toNat := by
  have hd := d.toNat_lt
  have hc : (combine r d.toUInt32).toNat = r.toNat * 2 ^ 16 + d.toNat := by
    rw [toNat_combine (hr.trans ht) (by simpa using hd)]
    simp
  have hlt : (r.toNat * 2 ^ 16 + d.toNat) / t.toNat < 2 ^ 16 := by
    rw [Nat.div_lt_iff_lt_mul (by omega)]
    nlinarith
  refine ⟨?_, by rw [UInt32.toNat_mod, hc]⟩
  rw [toNat_digit (by rw [UInt32.toNat_div, hc]; exact hlt), UInt32.toNat_div, hc]

theorem oneDigit_eq (u : Digits) {t : UInt32} (h0 : t ≠ 0) (ht : t.toNat < 2 ^ 16)
    (arq : Option UInt64) : ∃ q r, oneDigit u t arq = some (q, arq.map fun _ => r)
      ∧ q.toNat = u.num 1 4 / t.toNat ∧ r.toNat = u.num 1 4 % t.toNat := by
  have hpos : 0 < t.toNat := Nat.pos_of_ne_zero fun h => h0 (UInt32.toNat_inj.1 h)
  have hmod (x : UInt32) : (x % t).toNat < t.toNat := by
    rw [UInt32.toNat_mod]
    exact Nat.mod_lt _ hpos
  have h₁ : ((u 1).toUInt32 / t).toUInt16.toNat = u.num 1 1 / t.toNat
      ∧ ((u 1).toUInt32 % t).toNat = u.num 1 1 % t.toNat := by
    have hu := (u 1).toNat_lt
    have hdiv := Nat.div_le_self (u 1).toNat t.toNat
    have hnum : u.num 1 1 = (u 1).toNat := by simp [num, radix]
    rw [hnum, toNat_digit (by simp; omega)]
    simp
  obtain ⟨hq₁, hr₁⟩ := h₁
  obtain ⟨hq₂, hr₂⟩ := toNat_short (d := u 2) ht (hmod (u 1).toUInt32)
  obtain ⟨hq₃, hr₃⟩ := toNat_short (d := u 3) ht (hmod (combine ((u 1).toUInt32 % t) (u 2).toUInt32))
  obtain ⟨hq₄, hr₄⟩ := toNat_short (d := u 4) ht
    (hmod (combine (combine ((u 1).toUInt32 % t) (u 2).toUInt32 % t) (u 3).toUInt32))
  have hm₂ := radix_succ_mod (b := 2 ^ 16) (a := fun i => (u i).toNat) (s := 1) (n := 1) t.toNat
  have hm₃ := radix_succ_mod (b := 2 ^ 16) (a := fun i => (u i).toNat) (s := 1) (n := 2) t.toNat
  have hm₄ := radix_succ_mod (b := 2 ^ 16) (a := fun i => (u i).toNat) (s := 1) (n := 3) t.toNat
  have hd₂ := radix_succ_div (b := 2 ^ 16) (a := fun i => (u i).toNat) (s := 1) (n := 1) t.toNat
  have hd₃ := radix_succ_div (b := 2 ^ 16) (a := fun i => (u i).toNat) (s := 1) (n := 2) t.toNat
  have hd₄ := radix_succ_div (b := 2 ^ 16) (a := fun i => (u i).toNat) (s := 1) (n := 3) t.toNat
  change u.num 1 2 % _ = (u.num 1 1 % _ * _ + (u 2).toNat) % _ at hm₂
  change u.num 1 3 % _ = (u.num 1 2 % _ * _ + (u 3).toNat) % _ at hm₃
  change u.num 1 4 % _ = (u.num 1 3 % _ * _ + (u 4).toNat) % _ at hm₄
  change u.num 1 2 / _ = u.num 1 1 / _ * _ + (u.num 1 1 % _ * _ + (u 2).toNat) / _ at hd₂
  change u.num 1 3 / _ = u.num 1 2 / _ * _ + (u.num 1 2 % _ * _ + (u 3).toNat) / _ at hd₃
  change u.num 1 4 / _ = u.num 1 3 / _ * _ + (u.num 1 3 % _ * _ + (u 4).toNat) / _ at hd₄
  rw [hr₁] at hq₂ hr₂
  rw [hr₂, ← hm₂] at hq₃ hr₃
  rw [hr₃, ← hm₃] at hq₄ hr₄
  refine ⟨_, _, (if_neg h0 : _), ?_, ?_⟩
  · rw [toNat_join, hq₁, hq₂, hq₃, hq₄, hd₄, hd₃, hd₂]
  · rw [UInt32.toNat_toUInt64, hr₄, hm₄]

/-! ## Shifts -/

theorem normShift_spec {v₁ : UInt16} (h0 : v₁ ≠ 0) {fuel : ℕ} (hfuel : 16 ≤ fuel) :
    ∃ d, normShift fuel v₁ = some d ∧ d.toNat < 16 ∧ v₁.toNat * 2 ^ d.toNat < 2 ^ 16
      ∧ 2 ^ 15 ≤ v₁.toNat * 2 ^ d.toNat := by
  have hpos : 0 < v₁.toNat := Nat.pos_of_ne_zero fun h => h0 (UInt16.toNat_inj.1 h)
  have hlt := v₁.toNat_lt
  obtain ⟨s, n, hloop, htest, hk, h₁, h₂⟩ := whileLoop_inv
    (fun s : UInt32 × UInt32 => s.1 < 0x8000) (fun s => (s.1 <<< 1, s.2 + 1))
    (P := fun n s => s.2.toNat + n = 15 ∧ s.1.toNat = v₁.toNat * 2 ^ s.2.toNat ∧ s.1.toNat < 2 ^ 16)
    (fun n s ⟨hk, hs, _⟩ htest => by
      have ht : s.1.toNat < 2 ^ 15 := UInt32.lt_iff_toNat_lt.1 (of_decide_eq_true htest)
      have hshift : (s.1 <<< 1).toNat = s.1.toNat * 2 := by
        rw [UInt32.toNat_shiftLeft, Nat.shiftLeft_eq]
        exact Nat.mod_eq_of_lt (by change s.1.toNat * 2 < 2 ^ 32; omega)
      have hsucc : (s.2 + 1).toNat = s.2.toNat + 1 := by
        rw [UInt32.toNat_add]
        exact Nat.mod_eq_of_lt (by change s.2.toNat + 1 < 2 ^ 32; omega)
      have hn : n ≠ 0 := by
        rintro rfl
        have h15 : s.2.toNat = 15 := by omega
        rw [h15] at hs
        omega
      refine ⟨n - 1, by omega, ?_⟩
      dsimp only
      rw [hsucc, hshift, pow_succ, ← mul_assoc, ← hs]
      exact ⟨by omega, rfl, by omega⟩)
    (n := 15) (s := (v₁.toUInt32, 0)) ⟨rfl, by simp, by simpa using hlt⟩ (show 15 < fuel by omega)
  have ht : 2 ^ 15 ≤ s.1.toNat :=
    Nat.le_of_not_lt fun h => of_decide_eq_false htest (UInt32.lt_iff_toNat_lt.2 h)
  refine ⟨s.2, ?_, by omega, h₁ ▸ h₂, h₁ ▸ ht⟩
  unfold normShift
  rw [hloop]
  rfl

/-- The high part of a digit moved to the left, with what comes in from the next one. -/
theorem toNat_shiftDigit {sh : UInt32} (hsh : sh.toNat < 16) (hi lo : UInt16) :
    (lhalf (hi.toUInt32 <<< sh) ||| lo.toUInt32 >>> (16 - sh)).toUInt16.toNat
      = hi.toNat * 2 ^ sh.toNat % 2 ^ 16 + lo.toNat * 2 ^ sh.toNat / 2 ^ 16 := by
  have hhi := hi.toNat_lt
  have hlo := lo.toNat_lt
  obtain ⟨k, hk⟩ : ∃ k, sh.toNat + k = 16 := ⟨16 - sh.toNat, by omega⟩
  have hpow : 2 ^ sh.toNat * 2 ^ k = 2 ^ 16 := by rw [← pow_add, hk]
  have hsub : (16 - sh).toNat = k := by
    rw [UInt32.toNat_sub_of_le _ _ (UInt32.le_iff_toNat_le.2 hsh.le)]
    change 16 - sh.toNat = k
    omega
  have hleft : (hi.toUInt32 <<< sh).toNat = hi.toNat * 2 ^ sh.toNat := by
    rw [UInt32.toNat_shiftLeft, Nat.mod_eq_of_lt (show sh.toNat < 32 by omega), Nat.shiftLeft_eq,
      UInt16.toNat_toUInt32]
    refine Nat.mod_eq_of_lt ((Nat.mul_lt_mul_of_lt_of_le hhi
      (Nat.pow_le_pow_right (by decide) hsh.le) (by positivity)).trans_eq (by norm_num))
  have hright : (lo.toUInt32 >>> (16 - sh)).toNat = lo.toNat * 2 ^ sh.toNat / 2 ^ 16 := by
    have hmod : k % 32 = k := Nat.mod_eq_of_lt (by omega)
    rw [UInt32.toNat_shiftRight, hsub, hmod, Nat.shiftRight_eq_div_pow, UInt16.toNat_toUInt32, ← hpow,
      mul_comm (2 ^ sh.toNat), Nat.mul_div_mul_right _ _ (by positivity)]
  have hcarry : lo.toNat * 2 ^ sh.toNat / 2 ^ 16 < 2 ^ sh.toNat := by
    rw [Nat.div_lt_iff_lt_mul (by positivity), mul_comm]
    exact Nat.mul_lt_mul_of_pos_left hlo (by positivity)
  have hhigh : hi.toNat * 2 ^ sh.toNat % 2 ^ 16 = (hi.toNat % 2 ^ k) <<< sh.toNat := by
    rw [Nat.shiftLeft_eq, ← hpow, mul_comm (2 ^ sh.toNat), Nat.mul_mod_mul_right]
  have hor : (lhalf (hi.toUInt32 <<< sh) ||| lo.toUInt32 >>> (16 - sh)).toNat
      = hi.toNat * 2 ^ sh.toNat % 2 ^ 16 + lo.toNat * 2 ^ sh.toNat / 2 ^ 16 := by
    rw [UInt32.toNat_or, toNat_lhalf, hleft, hright, hhigh, Nat.shiftLeft_add_eq_or_of_lt hcarry]
  rw [toNat_digit, hor]
  rw [hor]
  have hmul : (hi.toNat % 2 ^ k) * 2 ^ sh.toNat + 2 ^ sh.toNat ≤ 2 ^ k * 2 ^ sh.toNat := by
    rw [← Nat.succ_mul]
    exact Nat.mul_le_mul_right _ (Nat.mod_lt _ (by positivity))
  rw [hhigh, Nat.shiftLeft_eq]
  rw [mul_comm (2 ^ k), hpow] at hmul
  omega

/-- The array after `shl`. -/
def shifted (a : Digits) (p len : ℕ) (sh : UInt32) : Digits := fun i =>
  if p ≤ i ∧ i < p + len then (lhalf ((a i).toUInt32 <<< sh) ||| (a (i + 1)).toUInt32 >>> (16 - sh)).toUInt16
  else a i

theorem shl_eq {a : Digits} {p len : ℕ} (h : p + len < 5) (sh : UInt32) : shl a p len sh
    = some (Function.update (shifted a p len sh) (p + len)
        (lhalf ((a (p + len)).toUInt32 <<< sh)).toUInt16) := by
  have hloop := foldlM_range_eq (n := len) (g := fun i => shifted a p i sh)
    (f := fun a i => do
      let hi ← a.get (p + i)
      let lo ← a.get (p + (i + 1))
      a.set (p + i) (lhalf (hi.toUInt32 <<< sh) ||| lo.toUInt32 >>> (16 - sh)).toUInt16)
    (fun i hi => by
      have hself : shifted a p i sh (p + i) = a (p + i) := if_neg (by omega)
      have hnext : shifted a p i sh (p + (i + 1)) = a (p + (i + 1)) := if_neg (by omega)
      simp only [get_of_lt (show p + i < 5 by omega), get_of_lt (show p + (i + 1) < 5 by omega),
        Option.bind_eq_bind, Option.bind_some, set_of_lt (show p + i < 5 by omega), hself, hnext]
      refine congrArg some (funext fun k => ?_)
      by_cases hk : k = p + i
      · subst hk
        rw [Function.update_self]
        exact (if_pos (by omega)).symm
      · rw [Function.update_of_ne hk]
        unfold shifted
        by_cases hlt : p ≤ k ∧ k < p + i
        · rw [if_pos hlt, if_pos (by omega)]
        · rw [if_neg hlt, if_neg (by omega)])
  have hzero : shifted a p 0 sh = a := funext fun k => if_neg (by omega)
  have hlast : shifted a p len sh (p + len) = a (p + len) := if_neg (by omega)
  rw [hzero] at hloop
  unfold shl
  rw [hloop]
  simp only [Option.bind_eq_bind, Option.bind_some, get_of_lt h, set_of_lt h, hlast]

/-- `shl` multiplies, when nothing falls out on the left. -/
theorem shl_spec {a : Digits} {p len : ℕ} {sh : UInt32} (h : p + len < 5) (hsh : sh.toNat < 16)
    (hout : (a p).toNat * 2 ^ sh.toNat < 2 ^ 16) :
    ∃ a', shl a p len sh = some a' ∧ a'.num p (len + 1) = a.num p (len + 1) * 2 ^ sh.toNat
      ∧ ∀ i, i < p ∨ p + len < i → a' i = a i := by
  refine ⟨_, shl_eq h sh, ?_, fun i hi => ?_⟩
  · have hscale := radix_scale (b := 2 ^ 16) (a := fun i => (a i).toNat) (2 ^ sh.toNat)
      (f := fun i => (Function.update (shifted a p len sh) (p + len)
        (lhalf ((a (p + len)).toUInt32 <<< sh)).toUInt16 i).toNat) len p (fun i hi => by
        rw [Function.update_of_ne (by omega), shifted, if_pos (by omega), toNat_shiftDigit hsh,
          add_assoc p i 1]) (by
        rw [Function.update_self, toNat_lhalf_digit, UInt32.toNat_shiftLeft,
          Nat.mod_eq_of_lt (show sh.toNat < 32 by omega), Nat.shiftLeft_eq, UInt16.toNat_toUInt32]
        exact Nat.mod_mod_of_dvd _ (by norm_num))
    rw [Nat.div_eq_of_lt hout, Nat.zero_mul, Nat.zero_add] at hscale
    exact hscale
  · rw [Function.update_of_ne (by omega)]
    exact if_neg (by omega)

/-! ## The estimate -/

/-- What the loop of D3 keeps: the estimate is not below the digit it is for. -/
structure Estimate (v₁ v₂ x uj₂ : ℕ) (q r : ℕ) : Prop where
  eq : q * v₁ + r = x
  le : q ≤ 2 ^ 16
  greatest : ∀ q' < 2 ^ 16, q' * (v₁ * 2 ^ 16 + v₂) ≤ x * 2 ^ 16 + uj₂ → q' ≤ q

section Estimate

variable {v₁ v₂ uj₂ qhat rhat : UInt32} {x : ℕ}

/-- The test of the loop compares the leading digits. -/
theorem Estimate.test (h : Estimate v₁.toNat v₂.toNat x uj₂.toNat qhat.toNat rhat.toNat)
    (hv₂ : v₂.toNat < 2 ^ 16) (hu : uj₂.toNat < 2 ^ 16) (hr : rhat.toNat < 2 ^ 16) :
    combine rhat uj₂ < v₂ * qhat
      ↔ x * 2 ^ 16 + uj₂.toNat < qhat.toNat * (v₁.toNat * 2 ^ 16 + v₂.toNat) := by
  have hmul : (v₂ * qhat).toNat = v₂.toNat * qhat.toNat := by
    rw [UInt32.toNat_mul]
    have := Nat.mul_le_mul (Nat.le_sub_one_of_lt hv₂) h.le
    exact Nat.mod_eq_of_lt (by omega)
  rw [UInt32.lt_iff_toNat_lt, hmul, toNat_combine hr hu, ← h.eq]
  constructor <;> intro hlt <;> nlinarith

/-- A round of the loop, from an estimate that is too big. -/
theorem Estimate.round (h : Estimate v₁.toNat v₂.toNat x uj₂.toNat qhat.toNat rhat.toNat)
    (hv₁ : v₁.toNat < 2 ^ 16) (hr : rhat.toNat < 2 ^ 16) (hq : 0 < qhat.toNat)
    (hbig : qhat.toNat = 2 ^ 16
      ∨ x * 2 ^ 16 + uj₂.toNat < qhat.toNat * (v₁.toNat * 2 ^ 16 + v₂.toNat)) :
    (qhat - 1).toNat = qhat.toNat - 1 ∧ (rhat + v₁).toNat = rhat.toNat + v₁.toNat
      ∧ Estimate v₁.toNat v₂.toNat x uj₂.toNat (qhat - 1).toNat (rhat + v₁).toNat := by
  have hsub : (qhat - 1).toNat = qhat.toNat - 1 :=
    UInt32.toNat_sub_of_le _ _ (UInt32.le_iff_toNat_le.2 hq)
  have hadd : (rhat + v₁).toNat = rhat.toNat + v₁.toNat := by
    rw [UInt32.toNat_add]
    exact Nat.mod_eq_of_lt (by omega)
  refine ⟨hsub, hadd, ?_, ?_, fun q' hq' hle => ?_⟩
  · rw [hsub, hadd, ← h.eq]
    obtain ⟨k, hk⟩ := Nat.exists_eq_succ_of_ne_zero hq.ne'
    rw [hk, Nat.succ_sub_one, Nat.succ_mul]
    omega
  · rw [hsub]
    exact (Nat.sub_le _ _).trans h.le
  · have hne : q' ≠ qhat.toNat := by
      rintro rfl
      rcases hbig with hmax | hlt
      · omega
      · omega
    have := h.greatest q' hq' hle
    omega

/-- The estimate is the greatest digit once the test fails, or once `rhat` is no digit. -/
theorem Estimate.trial (h : Estimate v₁.toNat v₂.toNat x uj₂.toNat qhat.toNat rhat.toNat)
    (hlt : qhat.toNat < 2 ^ 16)
    (hle : qhat.toNat * (v₁.toNat * 2 ^ 16 + v₂.toNat) ≤ x * 2 ^ 16 + uj₂.toNat) :
    Trial (2 ^ 16) (x * 2 ^ 16 + uj₂.toNat) (v₁.toNat * 2 ^ 16 + v₂.toNat) qhat.toNat :=
  ⟨hlt, hle, h.greatest⟩

/-- The loop makes two rounds at most: each adds half the base to `rhat`. -/
theorem adjust_spec (hv₁ : v₁.toNat < 2 ^ 16) (hhalf : 2 ^ 15 ≤ v₁.toNat) (hv₂ : v₂.toNat < 2 ^ 16)
    (hu : uj₂.toNat < 2 ^ 16) : ∀ {fuel : ℕ} {tooBig : Bool} {qhat rhat : UInt32} {c : ℕ},
    Estimate v₁.toNat v₂.toNat x uj₂.toNat qhat.toNat rhat.toNat → rhat.toNat < 2 ^ 16 →
    (tooBig = true ∧ qhat.toNat = 2 ^ 16 ∨ tooBig = false ∧ qhat.toNat < 2 ^ 16) →
    2 ^ 16 ≤ rhat.toNat + c * 2 ^ 15 → c < fuel →
    ∃ q, adjust v₁ v₂ uj₂ fuel tooBig qhat rhat = some q
      ∧ Trial (2 ^ 16) (x * 2 ^ 16 + uj₂.toNat) (v₁.toNat * 2 ^ 16 + v₂.toNat) q.toNat
  | fuel + 1, tooBig, qhat, rhat, c, h, hr, hbig, hc, hfuel => by
    have htest := h.test hv₂ hu hr
    unfold adjust
    by_cases hround : tooBig = true ∨ combine rhat uj₂ < v₂ * qhat
    · have hbig' : qhat.toNat = 2 ^ 16
          ∨ x * 2 ^ 16 + uj₂.toNat < qhat.toNat * (v₁.toNat * 2 ^ 16 + v₂.toNat) := by
        rcases hbig with ⟨-, hmax⟩ | ⟨hfalse, -⟩
        · exact .inl hmax
        · rw [hfalse] at hround
          exact .inr (htest.1 (hround.resolve_left Bool.false_ne_true))
      have hq : 0 < qhat.toNat := by
        rcases hbig' with hmax | hlt
        · omega
        · exact Nat.pos_of_ne_zero fun h0 => by simp [h0] at hlt
      obtain ⟨hsub, hadd, h'⟩ := h.round hv₁ hr hq hbig'
      have hle := h.le
      have hlt : (qhat - 1).toNat < 2 ^ 16 := by omega
      rw [if_pos hround]
      by_cases hbreak : 0x10000 ≤ rhat + v₁
      · rw [if_pos hbreak]
        have hbreak' : 2 ^ 16 ≤ (rhat + v₁).toNat := UInt32.le_iff_toNat_le.1 hbreak
        refine ⟨_, rfl, h'.trial hlt ?_⟩
        have hmul := Nat.mul_le_mul (Nat.le_sub_one_of_lt hlt) (Nat.le_sub_one_of_lt hv₂)
        calc _ = (qhat - 1).toNat * v₁.toNat * 2 ^ 16 + (qhat - 1).toNat * v₂.toNat := by ring
          _ ≤ (qhat - 1).toNat * v₁.toNat * 2 ^ 16 + (rhat + v₁).toNat * 2 ^ 16 := by omega
          _ = x * 2 ^ 16 := by rw [← Nat.add_mul, h'.eq]
          _ ≤ x * 2 ^ 16 + uj₂.toNat := Nat.le_add_right _ _
      · rw [if_neg hbreak]
        have hbreak' : (rhat + v₁).toNat < 2 ^ 16 :=
          Nat.lt_of_not_le fun hle => hbreak (UInt32.le_iff_toNat_le.2 hle)
        obtain ⟨c, rfl⟩ := Nat.exists_eq_succ_of_ne_zero (by rintro rfl; omega : c ≠ 0)
        exact adjust_spec hv₁ hhalf hv₂ hu (c := c) h' hbreak' (.inr ⟨rfl, hlt⟩) (by omega) (by omega)
    · rw [if_neg hround]
      have hfalse : tooBig = false := by
        rcases hbig with ⟨htrue, -⟩ | ⟨hfalse, -⟩
        · exact absurd (.inl htrue) hround
        · exact hfalse
      have hlt : qhat.toNat < 2 ^ 16 := by
        rcases hbig with ⟨htrue, -⟩ | ⟨-, hlt⟩
        · exact absurd (.inl htrue) hround
        · exact hlt
      exact ⟨_, rfl, h.trial hlt (Nat.le_of_not_lt fun hlt' => hround (.inr (htest.2 hlt')))⟩

/-- The estimate of a digit is the greatest that the leading digits allow. -/
theorem estimate_spec {uj₀ uj₁ : UInt32} (hv₁ : v₁.toNat < 2 ^ 16) (hhalf : 2 ^ 15 ≤ v₁.toNat)
    (hv₂ : v₂.toNat < 2 ^ 16) (hu₀ : uj₀.toNat ≤ v₁.toNat) (hu₁ : uj₁.toNat < 2 ^ 16)
    (hu₂ : uj₂.toNat < 2 ^ 16) {fuel : ℕ} (hfuel : 3 ≤ fuel) :
    ∃ q, estimate fuel v₁ v₂ uj₀ uj₁ uj₂ = some q
      ∧ Trial (2 ^ 16) ((uj₀.toNat * 2 ^ 16 + uj₁.toNat) * 2 ^ 16 + uj₂.toNat)
        (v₁.toNat * 2 ^ 16 + v₂.toNat) q.toNat := by
  unfold estimate
  by_cases heq : uj₀ = v₁
  · rw [if_pos heq]
    have hest : Estimate v₁.toNat v₂.toNat (uj₀.toNat * 2 ^ 16 + uj₁.toNat) uj₂.toNat
        (0x10000 : UInt32).toNat uj₁.toNat :=
      ⟨by rw [heq]; change 2 ^ 16 * v₁.toNat + uj₁.toNat = _; omega, le_rfl, fun q' hq' _ => hq'.le⟩
    exact adjust_spec hv₁ hhalf hv₂ hu₂ (c := 2) hest hu₁ (.inl ⟨rfl, rfl⟩) (by omega) (by omega)
  · have hne : uj₀.toNat ≠ v₁.toNat := fun h => heq (UInt32.toNat_inj.1 h)
    have hpos : v₁ ≠ 0 := by
      rintro rfl
      exact absurd hhalf (by simp)
    have hnn : (combine uj₀ uj₁).toNat = uj₀.toNat * 2 ^ 16 + uj₁.toNat :=
      toNat_combine (by omega) hu₁
    have hdiv : (combine uj₀ uj₁ / v₁).toNat = (uj₀.toNat * 2 ^ 16 + uj₁.toNat) / v₁.toNat := by
      rw [UInt32.toNat_div, hnn]
    have hmod : (combine uj₀ uj₁ % v₁).toNat = (uj₀.toNat * 2 ^ 16 + uj₁.toNat) % v₁.toNat := by
      rw [UInt32.toNat_mod, hnn]
    have hv : 0 < v₁.toNat := by omega
    have hlt : (uj₀.toNat * 2 ^ 16 + uj₁.toNat) / v₁.toNat < 2 ^ 16 := by
      rw [Nat.div_lt_iff_lt_mul hv]
      omega
    have hrem := Nat.mod_lt (uj₀.toNat * 2 ^ 16 + uj₁.toNat) hv
    have hest : Estimate v₁.toNat v₂.toNat (uj₀.toNat * 2 ^ 16 + uj₁.toNat) uj₂.toNat
        (combine uj₀ uj₁ / v₁).toNat (combine uj₀ uj₁ % v₁).toNat := by
      rw [hdiv, hmod]
      refine ⟨Nat.div_add_mod' _ _, hlt.le, fun q' _ hle => ?_⟩
      exact (Nat.le_div_iff_mul_le hv).2 (mul_le_of_leading hu₂ hle)
    rw [if_neg heq, if_neg hpos]
    exact adjust_spec hv₁ hhalf hv₂ hu₂ (c := 2) hest (by omega) (.inr ⟨rfl, by omega⟩) (by omega)
      (by omega)

end Estimate

end QDivRem

end RTLKIM

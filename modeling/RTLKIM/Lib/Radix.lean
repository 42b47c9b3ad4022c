import Mathlib.Algebra.Order.Ring.Nat
import Mathlib.Tactic.Linarith
import Mathlib.Tactic.Ring

/-!
# Numbers by their digits

The number that has given digits in a base, the leading one first, and the estimate of a digit of a
quotient by the leading digits of the dividend and the divisor.
-/

namespace RTLKIM

/-- The number of which the digits in base `b` are the `n` from `s` on. -/
def radix (b : ℕ) (a : ℕ → ℕ) (s : ℕ) : ℕ → ℕ
  | 0 => 0
  | n + 1 => radix b a s n * b + a (s + n)

section Digits

variable {b : ℕ} {a f : ℕ → ℕ} {s n : ℕ}

theorem radix_split (m : ℕ) :
    ∀ n, radix b a s (m + n) = radix b a s m * b ^ n + radix b a (s + m) n
  | 0 => by simp [radix]
  | n + 1 => by
    rw [← add_assoc, radix, radix, radix_split m n, pow_succ, add_assoc s m n]
    ring

/-- The leading digit. -/
theorem radix_head (n : ℕ) : radix b a s (n + 1) = a s * b ^ n + radix b a (s + 1) n := by
  rw [add_comm n 1, radix_split]
  simp [radix]

theorem radix_congr (h : ∀ i < n, a (s + i) = f (s + i)) : radix b a s n = radix b f s n := by
  induction n with
  | zero => rfl
  | succ n ih => rw [radix, radix, ih fun i hi => h i (Nat.lt_succ_of_lt hi), h n (Nat.lt_succ_self n)]

theorem radix_lt (h : ∀ i < n, a (s + i) < b) : radix b a s n < b ^ n := by
  induction n with
  | zero => simp [radix]
  | succ n ih =>
    have hlt := ih fun i hi => h i (Nat.lt_succ_of_lt hi)
    have hd := h n (Nat.lt_succ_self n)
    calc radix b a s n * b + a (s + n) < radix b a s n * b + b := Nat.add_lt_add_left hd _
      _ = (radix b a s n + 1) * b := (Nat.succ_mul _ _).symm
      _ ≤ b ^ n * b := Nat.mul_le_mul_right b hlt

/-- Zeros before the digits. -/
theorem radix_zeros {m : ℕ} (h : ∀ i < m, a (s + i) = 0) (n : ℕ) :
    radix b a s (m + n) = radix b a (s + m) n := by
  have hzero : radix b a s m = 0 := by
    clear n
    induction m with
    | zero => rfl
    | succ m ih =>
      rw [radix, ih fun i hi => h i (Nat.lt_succ_of_lt hi), h m (Nat.lt_succ_self m), Nat.zero_mul]
  rw [radix_split, hzero, Nat.zero_mul, Nat.zero_add]

/-- A number below a power of the base has a zero before its digits. -/
theorem head_eq_zero_of_lt (h : radix b a s (n + 1) < b ^ n) : a s = 0 := by
  rw [radix_head] at h
  by_contra hne
  have := Nat.le_mul_of_pos_left (b ^ n) (Nat.pos_of_ne_zero hne)
  omega

/-- A number times `c`, digit by digit: what each digit carries goes to the one before it. -/
theorem radix_scale (c : ℕ) : ∀ (n s : ℕ),
    (∀ i < n, f (s + i) = a (s + i) * c % b + a (s + (i + 1)) * c / b) →
    f (s + n) = a (s + n) * c % b →
    a s * c / b * b ^ (n + 1) + radix b f s (n + 1) = radix b a s (n + 1) * c
  | 0, s, _, hlast => by
    have hdiv := Nat.div_add_mod' (a s * c) b
    simp only [add_zero] at hlast
    simp only [radix, zero_mul, zero_add, add_zero, pow_one, hlast]
    exact hdiv
  | n + 1, s, h, hlast => by
    have ih := radix_scale c n (s + 1)
      (fun i hi => by
        have := h (i + 1) (Nat.succ_lt_succ hi)
        rwa [show s + (i + 1) = s + 1 + i by omega, show s + (i + 1 + 1) = s + 1 + (i + 1) by omega]
          at this)
      (by rwa [show s + 1 + n = s + (n + 1) by omega])
    have hhead : f s = a s * c % b + a (s + 1) * c / b := h 0 (Nat.succ_pos n)
    have hdiv : a s * c * b ^ (n + 1) = (a s * c / b * b + a s * c % b) * b ^ (n + 1) := by
      rw [Nat.div_add_mod']
    rw [radix_head (n + 1), radix_head (n + 1), add_mul, ← ih, hhead, mul_right_comm (a s), hdiv]
    ring

/-- A number divided by `c`, digit by digit: what is left of each digit goes to the one after it. -/
theorem radix_unscale {c e : ℕ} (hb : c * e = b) : ∀ n : ℕ,
    (∀ i < n, f (s + (i + 1)) = a (s + (i + 1)) / c + a (s + i) % c * e) →
    radix b f (s + 1) n * c + a (s + n) % c = radix b a (s + 1) n + a s % c * b ^ n
  | 0, _ => by simp [radix]
  | n + 1, h => by
    have ih := radix_unscale hb n fun i hi => h i (Nat.lt_succ_of_lt hi)
    have hlast := h n (Nat.lt_succ_self n)
    have hdiv := Nat.div_add_mod' (a (s + (n + 1))) c
    rw [radix, radix, show s + 1 + n = s + (n + 1) by omega, hlast]
    calc (radix b f (s + 1) n * b + (a (s + (n + 1)) / c + a (s + n) % c * e)) * c
          + a (s + (n + 1)) % c
        = (radix b f (s + 1) n * c) * b + a (s + n) % c * (c * e)
          + (a (s + (n + 1)) / c * c + a (s + (n + 1)) % c) := by ring
      _ = (radix b f (s + 1) n * c + a (s + n) % c) * b + a (s + (n + 1)) := by
        rw [hb, hdiv]
        ring
      _ = radix b a (s + 1) n * b + a (s + (n + 1)) + a s % c * b ^ (n + 1) := by
        rw [ih, pow_succ]
        ring

/-- One more digit of a short division. -/
theorem radix_succ_div (t : ℕ) : radix b a s (n + 1) / t
    = radix b a s n / t * b + (radix b a s n % t * b + a (s + n)) / t := by
  rcases Nat.eq_zero_or_pos t with rfl | ht
  · simp
  have hdiv := Nat.div_add_mod' (radix b a s n) t
  have : radix b a s (n + 1) = t * (radix b a s n / t * b) + (radix b a s n % t * b + a (s + n)) := by
    calc radix b a s (n + 1) = (radix b a s n / t * t + radix b a s n % t) * b + a (s + n) := by
          rw [hdiv, radix]
      _ = _ := by ring
  rw [this, Nat.mul_add_div ht]

theorem radix_succ_mod (t : ℕ) :
    radix b a s (n + 1) % t = (radix b a s n % t * b + a (s + n)) % t := by
  rw [radix, Nat.add_mod, Nat.mul_mod, ← Nat.mod_mod (radix b a s n) t, ← Nat.mul_mod,
    Nat.mod_mod, ← Nat.add_mod]

end Digits

/-! ## A digit of a quotient -/

/-- The greatest digit `q` for which `q * w` is `x` at most. -/
structure Trial (b x w q : ℕ) : Prop where
  lt : q < b
  le : q * w ≤ x
  greatest : ∀ q' < b, q' * w ≤ x → q' ≤ q

section Trial

variable {b c x y w z q : ℕ}

/-- The digits after the leading ones do not make up for one. -/
theorem mul_le_of_leading (hy : y < c) (h : q * (w * c + z) ≤ x * c + y) : q * w ≤ x := by
  have hle : q * w * c < (x + 1) * c := by nlinarith [Nat.zero_le (q * z)]
  exact Nat.lt_succ_iff.1 (Nat.lt_of_mul_lt_mul_right hle)

/-- The estimate by the leading digits is not below the digit. -/
theorem Trial.div_le (h : Trial b x w q) (hy : y < c) (hlt : x * c + y < b * (w * c + z)) :
    (x * c + y) / (w * c + z) ≤ q := by
  have hv : 0 < w * c + z := Nat.pos_of_ne_zero fun h0 => by simp [h0] at hlt
  have hq : (x * c + y) / (w * c + z) < b := (Nat.div_lt_iff_lt_mul hv).2 hlt
  exact h.greatest _ hq (mul_le_of_leading hy (Nat.div_mul_le_self (x * c + y) (w * c + z)))

/-- Nor is it above the next. -/
theorem Trial.le_div (h : Trial b x w q) (hz : z < c) (hv : b * c ≤ w * c + z) :
    q ≤ (x * c + y) / (w * c + z) + 1 := by
  rcases q with _ | q
  · exact Nat.zero_le _
  have hpos : 0 < w * c + z := by
    have := h.lt
    have : 0 < b * c := Nat.mul_pos (by omega) (by omega)
    omega
  refine Nat.succ_le_succ ((Nat.le_div_iff_mul_le hpos).2 ?_)
  have hle : (q + 1) * w * c ≤ x * c := Nat.mul_le_mul_right c h.le
  have hdigit : (q + 1) * z ≤ b * c := Nat.mul_le_mul h.lt.le hz.le
  nlinarith

end Trial

end RTLKIM

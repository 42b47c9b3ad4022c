import RTLKIM.Proofs.QDivWords

/-!
# The division by digits is right

The borrow of a subtraction tells whether the estimate was the digit of the quotient or the next one.
Each round leaves less than the divisor in the digits it has gone past.
-/

namespace RTLKIM

namespace QDivRem

open Digits

/-! ## A digit of the quotient -/

/-- A digit of the dividend, less one of the product, with the borrows. -/
theorem toNat_borrow (d w : UInt16) {q t : UInt32} (hq : q.toNat < 2 ^ 16) (ht : t.toNat < 2 ^ 16) :
    d.toNat + ((0x10000 - hhalf (d.toUInt32 - w.toUInt32 * q - t)) &&& 0xFFFF).toNat * 2 ^ 16
      = (lhalf (d.toUInt32 - w.toUInt32 * q - t)).toUInt16.toNat + w.toNat * q.toNat + t.toNat := by
  have hd := d.toNat_lt
  have hw := w.toNat_lt
  have hprod := Nat.mul_le_mul (Nat.le_sub_one_of_lt hw) (Nat.le_sub_one_of_lt hq)
  have hmul : (w.toUInt32 * q).toNat = w.toNat * q.toNat := by
    rw [UInt32.toNat_mul, UInt16.toNat_toUInt32]
    exact Nat.mod_eq_of_lt (by omega)
  have hT : (d.toUInt32 - w.toUInt32 * q - t).toNat
      = (2 ^ 32 + d.toNat - (w.toNat * q.toNat + t.toNat)) % 2 ^ 32 := by
    rw [UInt32.toNat_sub, UInt32.toNat_sub, hmul, UInt16.toNat_toUInt32]
    omega
  have hmask (x : UInt32) : (x &&& 0xFFFF).toNat = x.toNat % 2 ^ 16 := by
    rw [UInt32.toNat_and]
    exact Nat.and_two_pow_sub_one_eq_mod x.toNat 16
  have hneg (x : UInt32) : (0x10000 - hhalf x).toNat = 2 ^ 16 - x.toNat / 2 ^ 16 := by
    have hx := x.toNat_lt
    have hle : (hhalf x).toNat ≤ (0x10000 : UInt32).toNat := by
      rw [toNat_hhalf]
      change x.toNat / 2 ^ 16 ≤ 2 ^ 16
      omega
    rw [UInt32.toNat_sub_of_le _ _ (UInt32.le_iff_toNat_le.2 hle), toNat_hhalf]
    rfl
  rw [toNat_lhalf_digit, hmask, hneg, hT]
  generalize w.toNat * q.toNat = x at *
  omega

section Window

variable {v : Digits} {pu pv j : ℕ}

variable (v pu pv j) in
/-- D4 is one equation: the part of the dividend and the borrow, what is left and the product. -/
theorem mulSub_spec {qhat : UInt32} (hq : qhat.toNat < 2 ^ 16) : ∀ {i : ℕ} {u : Digits} {t : UInt32},
    pu + j + i < 5 → pv + i < 5 → t.toNat < 2 ^ 16 →
    ∃ u' t', mulSub v pu pv qhat j i u t = some (u', t') ∧ t'.toNat < 2 ^ 16
      ∧ u.num (pu + j + 1) i + t'.toNat * (2 ^ 16) ^ i
        = u'.num (pu + j + 1) i + qhat.toNat * v.num (pv + 1) i + t.toNat
      ∧ ∀ k, k ≤ pu + j ∨ pu + j + i < k → u' k = u k
  | 0, u, t, _, _, ht => ⟨u, t, rfl, ht, by simp [num, radix], fun _ _ => rfl⟩
  | i + 1, u, t, hu, hv, ht => by
    have hat : pu + (i + 1 + j) = pu + j + 1 + i := by omega
    have hdigit := toNat_borrow (u (pu + j + 1 + i)) (v (pv + (i + 1))) hq ht
    have ht' : ((0x10000 - hhalf ((u (pu + j + 1 + i)).toUInt32
        - (v (pv + (i + 1))).toUInt32 * qhat - t)) &&& 0xFFFF).toNat < 2 ^ 16 := by
      rw [UInt32.toNat_and]
      exact lt_of_le_of_lt Nat.and_le_right (by decide)
    obtain ⟨u', t', hloop, hlt, heq, hframe⟩ := mulSub_spec hq
      (u := Function.update u (pu + j + 1 + i) (lhalf ((u (pu + j + 1 + i)).toUInt32
        - (v (pv + (i + 1))).toUInt32 * qhat - t)).toUInt16) (i := i) (by omega) (by omega) ht'
    refine ⟨u', t', ?_, hlt, ?_, fun k hk => ?_⟩
    · unfold mulSub
      rw [hat, get_of_lt (by omega), get_of_lt hv]
      simp only [Option.bind_eq_bind, Option.bind_some]
      rw [set_of_lt (by omega)]
      exact hloop
    · have hlast := hframe (pu + j + 1 + i) (.inr (by omega))
      rw [Function.update_self] at hlast
      rw [num_update (.inr le_rfl)] at heq
      rw [num_succ, num_succ u', num_succ v, hlast, show pv + 1 + i = pv + (i + 1) by omega]
      calc _ = (u.num (pu + j + 1) i + t'.toNat * (2 ^ 16) ^ i) * 2 ^ 16
            + (u (pu + j + 1 + i)).toNat := by ring
        _ = _ := by
          rw [heq]
          linarith
    · rw [hframe k (by omega), Function.update_of_ne (by omega)]

variable (v pu pv j) in
/-- D6 adds the divisor. -/
theorem addBack_spec : ∀ {i : ℕ} {u : Digits} {t : UInt32}, pu + j + i < 5 → pv + i < 5 → t.toNat ≤ 1 →
    ∃ u' t', addBack v pu pv j i u t = some (u', t') ∧ t'.toNat ≤ 1
      ∧ u'.num (pu + j + 1) i + t'.toNat * (2 ^ 16) ^ i
        = u.num (pu + j + 1) i + v.num (pv + 1) i + t.toNat
      ∧ ∀ k, k ≤ pu + j ∨ pu + j + i < k → u' k = u k
  | 0, u, t, _, _, ht => ⟨u, t, rfl, ht, by simp [num, radix], fun _ _ => rfl⟩
  | i + 1, u, t, hu, hv, ht => by
    have hat : pu + (i + 1 + j) = pu + j + 1 + i := by omega
    have hd := (u (pu + j + 1 + i)).toNat_lt
    have hw := (v (pv + (i + 1))).toNat_lt
    have hsum : (t + ((u (pu + j + 1 + i)).toUInt32 + (v (pv + (i + 1))).toUInt32)).toNat
        = t.toNat + ((u (pu + j + 1 + i)).toNat + (v (pv + (i + 1))).toNat) := by
      simp only [UInt32.toNat_add, UInt16.toNat_toUInt32]
      omega
    obtain ⟨u', t', hloop, hle, heq, hframe⟩ := addBack_spec
      (u := Function.update u (pu + j + 1 + i) (lhalf (t + ((u (pu + j + 1 + i)).toUInt32
        + (v (pv + (i + 1))).toUInt32))).toUInt16) (i := i) (t := hhalf (t
        + ((u (pu + j + 1 + i)).toUInt32 + (v (pv + (i + 1))).toUInt32))) (by omega) (by omega)
      (by rw [toNat_hhalf, hsum]; omega)
    refine ⟨u', t', ?_, hle, ?_, fun k hk => ?_⟩
    · unfold addBack
      rw [hat, get_of_lt (by omega), get_of_lt hv]
      simp only [Option.bind_eq_bind, Option.bind_some]
      rw [set_of_lt (by omega)]
      exact hloop
    · have hlast := hframe (pu + j + 1 + i) (.inr (by omega))
      rw [Function.update_self] at hlast
      rw [num_update (.inr le_rfl), toNat_hhalf, hsum] at heq
      rw [num_succ, num_succ u, num_succ v, hlast, toNat_lhalf_digit, hsum,
        show pv + 1 + i = pv + (i + 1) by omega]
      have hdiv := Nat.div_add_mod' (t.toNat
        + ((u (pu + j + 1 + i)).toNat + (v (pv + (i + 1))).toNat)) (2 ^ 16)
      calc _ = (u'.num (pu + j + 1) i + t'.toNat * (2 ^ 16) ^ i) * 2 ^ 16 + (t.toNat
            + ((u (pu + j + 1 + i)).toNat + (v (pv + (i + 1))).toNat)) % 2 ^ 16 := by ring
        _ = _ := by
          rw [heq]
          linarith
    · rw [hframe k (by omega), Function.update_of_ne (by omega)]

/-- The leading digit less the borrow: its high half tells whether the product was too big. -/
theorem toNat_lead {d : UInt16} {t : UInt32} (ht : t.toNat < 2 ^ 16) :
    (hhalf (d.toUInt32 - t) = 0 ↔ t.toNat ≤ d.toNat)
      ∧ (lhalf (d.toUInt32 - t)).toUInt16.toNat = (2 ^ 16 + d.toNat - t.toNat) % 2 ^ 16 := by
  have hd := d.toNat_lt
  have hsub : (d.toUInt32 - t).toNat = (2 ^ 32 + d.toNat - t.toNat) % 2 ^ 32 := by
    rw [UInt32.toNat_sub, UInt16.toNat_toUInt32]
    omega
  constructor
  · rw [← UInt32.toNat_inj, toNat_hhalf, hsub]
    change _ = 0 ↔ _
    omega
  · rw [toNat_lhalf_digit, hsub]
    omega

/-- An estimate that is the digit or the next one comes to the digit, with the remainder left. -/
theorem subtract_spec {n : ℕ} {u : Digits} {qhat : UInt32} (hu : pu + j + n < 5) (hv : pv + n < 5)
    (hq : qhat.toNat < 2 ^ 16) (hV : 0 < v.num (pv + 1) n)
    (hle : u.num (pu + j) (n + 1) / v.num (pv + 1) n ≤ qhat.toNat)
    (hge : qhat.toNat ≤ u.num (pu + j) (n + 1) / v.num (pv + 1) n + 1) :
    ∃ u' q', subtract v pu pv n j qhat u = some (u', q')
      ∧ q'.toNat = u.num (pu + j) (n + 1) / v.num (pv + 1) n
      ∧ u'.num (pu + j) (n + 1) = u.num (pu + j) (n + 1) % v.num (pv + 1) n
      ∧ ∀ k, k < pu + j ∨ pu + j + n < k → u' k = u k := by
  obtain ⟨u₁, t, hmul, ht, heq, hframe⟩ := mulSub_spec v pu pv j hq hu hv (u := u) (t := 0)
    (by decide)
  rw [UInt32.toNat_zero, Nat.add_zero] at heq
  have hhead := hframe (pu + j) (.inl le_rfl)
  have hdiv := Nat.div_add_mod' (u.num (pu + j) (n + 1)) (v.num (pv + 1) n)
  have hmod := Nat.mod_lt (u.num (pu + j) (n + 1)) hV
  have hnum : u.num (pu + j) (n + 1) + t.toNat * (2 ^ 16) ^ n = (u (pu + j)).toNat * (2 ^ 16) ^ n
      + u₁.num (pu + j + 1) n + qhat.toNat * v.num (pv + 1) n := by
    rw [num_head, add_assoc, heq]
    ring
  have hlt₁ := u₁.num_lt (pu + j + 1) n
  obtain ⟨hborrow, hlead⟩ := toNat_lead (d := u (pu + j)) ht
  have hd := (u (pu + j)).toNat_lt
  by_cases hneg : t.toNat ≤ (u (pu + j)).toNat
  · -- no borrow: the product fits
    have hzero := hborrow.2 hneg
    obtain ⟨e, he⟩ := Nat.exists_eq_add_of_le hneg
    rw [he, Nat.add_mul] at hnum
    have hfits : qhat.toNat * v.num (pv + 1) n ≤ u.num (pu + j) (n + 1) := by omega
    have hquot : qhat.toNat = u.num (pu + j) (n + 1) / v.num (pv + 1) n :=
      le_antisymm ((Nat.le_div_iff_mul_le hV).2 hfits) hle
    refine ⟨Function.update u₁ (pu + j) (lhalf ((u (pu + j)).toUInt32 - t)).toUInt16, qhat, ?_, hquot,
      ?_, fun k hk => ?_⟩
    · unfold subtract
      rw [hmul]
      simp only [Option.bind_eq_bind, Option.bind_some, get_of_lt (show pu + j < 5 by omega),
        set_of_lt (show pu + j < 5 by omega), hhead, hzero, ne_eq, not_true_eq_false, if_false]
      rfl
    · rw [num_head, Function.update_self, num_update (.inl (Nat.lt_add_one _)), hlead,
        show (2 ^ 16 + (u (pu + j)).toNat - t.toNat) % 2 ^ 16 = e by omega]
      rw [← hquot] at hdiv
      omega
    · rw [Function.update_of_ne (by omega), hframe k (by omega)]
  · -- a borrow: the estimate was the next digit, and the divisor is added back
    have hne : hhalf ((u (pu + j)).toUInt32 - t) ≠ 0 := fun h => hneg (hborrow.1 h)
    obtain ⟨e, he⟩ := Nat.exists_eq_add_of_lt (Nat.lt_of_not_le hneg)
    rw [he, Nat.add_mul, Nat.add_mul, Nat.one_mul] at hnum
    have hquot : qhat.toNat = u.num (pu + j) (n + 1) / v.num (pv + 1) n + 1 := by
      refine le_antisymm hge (Nat.lt_of_not_le fun hfits => ?_)
      have := (Nat.le_div_iff_mul_le hV).1 hfits
      omega
    obtain ⟨u₂, c, hadd, hc, hsum, hframe₂⟩ := addBack_spec v pu pv j hu hv
      (u := Function.update u₁ (pu + j) (lhalf ((u (pu + j)).toUInt32 - t)).toUInt16) (t := 0) (by decide)
    have hhead₂ := hframe₂ (pu + j) (.inl le_rfl)
    rw [Function.update_self] at hhead₂
    rw [num_update (.inl (Nat.lt_add_one _)), UInt32.toNat_zero, Nat.add_zero] at hsum
    have hlt₂ := u₂.num_lt (pu + j + 1) n
    have hltV := v.num_lt (pv + 1) n
    rw [hquot, Nat.add_mul, Nat.one_mul] at hnum
    have hcarry : c.toNat = 1 ∧ e = 0 := by
      rcases Nat.le_one_iff_eq_zero_or_eq_one.1 hc with h0 | h1
      · rw [h0, Nat.zero_mul] at hsum
        omega
      · refine ⟨h1, Nat.eq_zero_of_not_pos fun he0 => ?_⟩
        have := Nat.le_mul_of_pos_left ((2 ^ 16) ^ n) he0
        rw [h1, Nat.one_mul] at hsum
        omega
    obtain ⟨hc1, rfl⟩ := hcarry
    rw [hc1, Nat.one_mul] at hsum
    have hlast : (lhalf ((lhalf ((u (pu + j)).toUInt32 - t)).toUInt16.toUInt32 + c)).toUInt16.toNat = 0 := by
      rw [toNat_lhalf_digit, UInt32.toNat_add, UInt16.toNat_toUInt32, hlead, hc1]
      omega
    refine ⟨Function.update u₂ (pu + j) (lhalf ((lhalf ((u (pu + j)).toUInt32
      - t)).toUInt16.toUInt32 + c)).toUInt16, qhat - 1, ?_, ?_, ?_, fun k hk => ?_⟩
    · unfold subtract
      rw [hmul]
      simp only [Option.bind_eq_bind, Option.bind_some, get_of_lt (show pu + j < 5 by omega),
        set_of_lt (show pu + j < 5 by omega), hhead, ne_eq, hne, not_false_eq_true, if_true, hadd, hhead₂]
      rfl
    · have hone : 1 ≤ qhat.toNat := by
        rw [hquot]
        exact Nat.le_add_left _ _
      rw [UInt32.toNat_sub_of_le qhat 1 (UInt32.le_iff_toNat_le.2 hone), UInt32.toNat_one, hquot,
        Nat.add_sub_cancel]
    · rw [num_head, Function.update_self, num_update (.inl (Nat.lt_add_one _)), hlast]
      omega
    · rw [Function.update_of_ne (by omega), hframe₂ k (by omega), Function.update_of_ne (by omega),
        hframe k (by omega)]

/-- The estimate for the digits at `j`, when what is before them is less than the divisor. -/
theorem estimate_window {n fuel : ℕ} {u : Digits} (hfuel : 3 ≤ fuel)
    (hnorm : 2 ^ 15 ≤ (v (pv + 1)).toNat)
    (hlt : u.num (pu + j) (n + 2) < v.num (pv + 1) (n + 2)) :
    ∃ q, estimate fuel (v (pv + 1)).toUInt32 (v (pv + 2)).toUInt32 (u (pu + (j + 0))).toUInt32
        (u (pu + (j + 1))).toUInt32 (u (pu + (j + 2))).toUInt32 = some q ∧ q.toNat < 2 ^ 16
      ∧ u.num (pu + j) (n + 3) / v.num (pv + 1) (n + 2) ≤ q.toNat
      ∧ q.toNat ≤ u.num (pu + j) (n + 3) / v.num (pv + 1) (n + 2) + 1 := by
  have hpow : 0 < (2 ^ 16) ^ n := Nat.pow_pos (by decide)
  have hV : v.num (pv + 1) (n + 2) = ((v (pv + 1)).toNat * 2 ^ 16 + (v (pv + 2)).toNat) * (2 ^ 16) ^ n
      + v.num (pv + 3) n := by
    rw [num_head, num_head, pow_succ]
    ring_nf
  have hU : u.num (pu + j) (n + 3) = (((u (pu + j)).toNat * 2 ^ 16 + (u (pu + (j + 1))).toNat) * 2 ^ 16
      + (u (pu + (j + 2))).toNat) * (2 ^ 16) ^ n + u.num (pu + j + 3) n := by
    rw [num_head, num_head, num_head, pow_succ, pow_succ, add_assoc pu j 1, add_assoc pu (j + 1) 1]
    ring_nf
  have hu₀ : (u (pu + j)).toNat ≤ (v (pv + 1)).toNat := by
    rw [num_head, num_head v] at hlt
    have hrest := v.num_lt (pv + 1 + 1) (n + 1)
    have hmul : (u (pu + j)).toNat * (2 ^ 16) ^ (n + 1)
        < ((v (pv + 1)).toNat + 1) * (2 ^ 16) ^ (n + 1) := by
      rw [Nat.succ_mul]
      omega
    exact Nat.lt_succ_iff.1 (Nat.lt_of_mul_lt_mul_right hmul)
  have hu₀' : (u (pu + j)).toUInt32.toNat ≤ (v (pv + 1)).toUInt32.toNat := by simpa using hu₀
  obtain ⟨q, hq, htrial⟩ := estimate_spec (toUInt32_lt (v (pv + 1))) (by simpa using hnorm)
    (toUInt32_lt (v (pv + 2))) hu₀' (toUInt32_lt (u (pu + (j + 1)))) (toUInt32_lt (u (pu + (j + 2)))) hfuel
  simp only [UInt16.toNat_toUInt32] at htrial
  refine ⟨q, hq, htrial.lt, ?_, ?_⟩
  · rw [hU, hV]
    refine htrial.div_le (u.num_lt (pu + j + 3) n) ?_
    rw [← hU, ← hV, num_succ]
    have hd := (u (pu + j + (n + 2))).toNat_lt
    omega
  · rw [hU, hV]
    refine htrial.le_div (v.num_lt (pv + 3) n) ?_
    have hlead := Nat.mul_le_mul_right ((2 ^ 16) ^ n)
      (show 2 ^ 16 ≤ (v (pv + 1)).toNat * 2 ^ 16 + (v (pv + 2)).toNat by omega)
    omega

/-- The loop on `j` divides: each round gives a digit of the quotient, and leaves less than the divisor. -/
theorem digitLoop_spec {pq n fuel : ℕ} (hfuel : 3 ≤ fuel) (hv : pv + (n + 2) < 5)
    (hnorm : 2 ^ 15 ≤ (v (pv + 1)).toNat) {r j : ℕ} {u q : Digits} (hu : pu + j + (n + 2) + r ≤ 5)
    (hq : pq + j + r ≤ 5) (hlt : u.num (pu + j) (n + 2) < v.num (pv + 1) (n + 2)) :
    ∃ u' q', digitLoop fuel v (v (pv + 1)).toUInt32 (v (pv + 2)).toUInt32 pu pv pq (n + 2) r j u q
        = some (u', q')
      ∧ u.num (pu + j) (n + 2 + r)
        = q'.num (pq + j) r * v.num (pv + 1) (n + 2) + u'.num (pu + j + r) (n + 2)
      ∧ u'.num (pu + j + r) (n + 2) < v.num (pv + 1) (n + 2)
      ∧ (∀ k < pu + j, u' k = u k) ∧ (∀ k, pu + j ≤ k → k < pu + j + r → u' k = 0)
      ∧ ∀ k < pq + j, q' k = q k := by
  induction r generalizing j u q with
  | zero =>
    exact ⟨u, q, rfl, by simp [num, radix], hlt, fun _ _ => rfl, fun _ h1 h2 => by omega, fun _ _ => rfl⟩
  | succ r ih =>
    obtain ⟨qhat, hest, hqlt, hle, hge⟩ := estimate_window hfuel hnorm hlt
    have hV : 0 < v.num (pv + 1) (n + 2) := Nat.pos_of_ne_zero fun h0 => by simp [h0] at hlt
    obtain ⟨u₁, q₁, hsub, hdigit, hrem, hframe⟩ := subtract_spec (n := n + 2) (by omega) hv hqlt
      hV hle hge
    have hmod := Nat.mod_lt (u.num (pu + j) (n + 3)) hV
    have hdiv := Nat.div_add_mod' (u.num (pu + j) (n + 3)) (v.num (pv + 1) (n + 2))
    have hsmall : u₁.num (pu + j) (n + 3) < v.num (pv + 1) (n + 2) := by
      rw [hrem]
      exact hmod
    have hzero : u₁ (pu + j) = 0 := head_eq_zero (hsmall.trans (v.num_lt _ _))
    have hshift (r : ℕ) : u₁.num (pu + j) (n + 3 + r) = u₁.num (pu + (j + 1)) (n + 2 + r) := by
      rw [show n + 3 + r = n + 2 + r + 1 by omega, num_tail hzero, add_assoc]
    obtain ⟨u', q', hloop, heq, hlt', hframe', hzero', hframeq⟩ := ih (j := j + 1) (u := u₁)
       (q := Function.update q (pq + j) q₁.toUInt16) (by omega) (by omega)
      (by rw [← Nat.add_zero (n + 2), ← hshift 0]; exact hsmall)
    have hcast : q₁.toUInt16.toNat = q₁.toNat := toNat_digit ((hdigit.trans_le hle).trans_lt hqlt)
    have hself : (q' (pq + j)).toNat = u.num (pu + j) (n + 3) / v.num (pv + 1) (n + 2) := by
      rw [hframeq (pq + j) (by omega), Function.update_self, hcast, hdigit]
    refine ⟨u', q', ?_, ?_, ?_, fun k hk => ?_, fun k h1 h2 => ?_, fun k hk => ?_⟩
    · unfold digitLoop
      rw [get_of_lt (by omega), get_of_lt (by omega), get_of_lt (by omega)]
      simp only [Option.bind_eq_bind, Option.bind_some, hest, hsub, set_of_lt (show pq + j < 5 by omega)]
      exact hloop
    · have hsame : u.num (pu + j + (n + 3)) r = u₁.num (pu + j + (n + 3)) r :=
        num_congr fun k h1 _ => (hframe k (by omega)).symm
      have hu₁ : u₁.num (pu + j) (n + 3 + r)
          = u.num (pu + j) (n + 3) % v.num (pv + 1) (n + 2) * (2 ^ 16) ^ r
            + u₁.num (pu + j + (n + 3)) r := by
        rw [← hrem]
        exact radix_split (n + 3) r
      have hu₀ : u.num (pu + j) (n + 2 + (r + 1))
          = u.num (pu + j) (n + 3) * (2 ^ 16) ^ r + u.num (pu + j + (n + 3)) r := by
        rw [show n + 2 + (r + 1) = n + 3 + r by omega]
        exact radix_split (n + 3) r
      have hrest : pu + (j + 1) + r = pu + j + (r + 1) := by omega
      rw [hu₀, hsame, num_head q', hself, add_assoc pq j 1]
      rw [← hshift r, hu₁, hrest] at heq
      calc _ = (u.num (pu + j) (n + 3) / v.num (pv + 1) (n + 2) * v.num (pv + 1) (n + 2)
            + u.num (pu + j) (n + 3) % v.num (pv + 1) (n + 2)) * (2 ^ 16) ^ r
              + u₁.num (pu + j + (n + 3)) r := by rw [hdiv]
        _ = u.num (pu + j) (n + 3) / v.num (pv + 1) (n + 2) * (2 ^ 16) ^ r * v.num (pv + 1) (n + 2)
            + (u.num (pu + j) (n + 3) % v.num (pv + 1) (n + 2) * (2 ^ 16) ^ r
              + u₁.num (pu + j + (n + 3)) r) := by ring
        _ = _ := by
          rw [heq]
          ring
    · rwa [show pu + j + (r + 1) = pu + (j + 1) + r by omega]
    · rw [hframe' k (by omega), hframe k (by omega)]
    · rcases Nat.eq_or_lt_of_le h1 with rfl | h1
      · rw [hframe' _ (by omega)]
        exact hzero
      · exact hzero' k (by omega) (by omega)
    · rw [hframeq k (by omega), Function.update_of_ne (by omega)]

end Window

/-! ## The whole division -/

/-- A digit moved back to the right, with what comes in from the one before it. -/
theorem toNat_unshiftDigit {d : UInt32} {k : ℕ} (hk : d.toNat + k = 16) (hd : 0 < d.toNat)
    (lo hi : UInt16) : (lo.toUInt32 >>> d ||| lhalf (hi.toUInt32 <<< (16 - d))).toUInt16.toNat
      = lo.toNat / 2 ^ d.toNat + hi.toNat % 2 ^ d.toNat * 2 ^ k := by
  have hlo := lo.toNat_lt
  have hhi := hi.toNat_lt
  have hpow : 2 ^ d.toNat * 2 ^ k = 2 ^ 16 := by rw [← pow_add, hk]
  have hsub : (16 - d).toNat = k := by
    rw [UInt32.toNat_sub_of_le _ _ (UInt32.le_iff_toNat_le.2 (show d.toNat ≤ 16 by omega))]
    change 16 - d.toNat = k
    omega
  have hright : (lo.toUInt32 >>> d).toNat = lo.toNat / 2 ^ d.toNat := by
    rw [UInt32.toNat_shiftRight, Nat.mod_eq_of_lt (show d.toNat < 32 by omega),
      Nat.shiftRight_eq_div_pow, UInt16.toNat_toUInt32]
  have hleft : (lhalf (hi.toUInt32 <<< (16 - d))).toNat = (hi.toNat % 2 ^ d.toNat) <<< k := by
    have hmod : hi.toNat * 2 ^ k % 2 ^ 32 % 2 ^ 16 = hi.toNat * 2 ^ k % 2 ^ 16 :=
      Nat.mod_mod_of_dvd _ (by norm_num)
    rw [toNat_lhalf, UInt32.toNat_shiftLeft, hsub, Nat.mod_eq_of_lt (show k < 32 by omega),
      Nat.shiftLeft_eq, Nat.shiftLeft_eq, UInt16.toNat_toUInt32, hmod, ← hpow, Nat.mul_mod_mul_right]
  have hlow : lo.toNat / 2 ^ d.toNat < 2 ^ k := by
    rw [Nat.div_lt_iff_lt_mul (by positivity), mul_comm, hpow]
    exact hlo
  have hor : (lo.toUInt32 >>> d ||| lhalf (hi.toUInt32 <<< (16 - d))).toNat
      = lo.toNat / 2 ^ d.toNat + hi.toNat % 2 ^ d.toNat * 2 ^ k := by
    rw [UInt32.toNat_or, hright, hleft, Nat.lor_comm, ← Nat.shiftLeft_add_eq_or_of_lt hlow,
      Nat.shiftLeft_eq, Nat.add_comm]
  rw [toNat_digit, hor]
  rw [hor]
  have hmul : hi.toNat % 2 ^ d.toNat * 2 ^ k + 2 ^ k ≤ 2 ^ d.toNat * 2 ^ k := by
    rw [← Nat.succ_mul]
    exact Nat.mul_le_mul_right _ (Nat.mod_lt _ (by positivity))
  rw [hpow] at hmul
  omega

/-- The digits that the loop moves back, each from what was there before. -/
theorem shiftBack_spec (pu m : ℕ) (d : UInt32) : ∀ {i : ℕ} {u : Digits}, pu + m + i < 5 →
    ∃ u', shiftBack pu m d i u = some u'
      ∧ (∀ k < i, u' (pu + m + (k + 1)) = ((u (pu + m + (k + 1))).toUInt32 >>> d
        ||| lhalf ((u (pu + m + k)).toUInt32 <<< (16 - d))).toUInt16)
      ∧ ∀ k, k ≤ pu + m ∨ pu + m + i < k → u' k = u k
  | 0, u, _ => ⟨u, rfl, fun _ hk => absurd hk (Nat.not_lt_zero _), fun _ _ => rfl⟩
  | i + 1, u, h => by
    obtain ⟨u', hloop, hdigits, hframe⟩ := shiftBack_spec pu m d (i := i)
      (u := Function.update u (pu + m + (i + 1)) ((u (pu + m + (i + 1))).toUInt32 >>> d
        ||| lhalf ((u (pu + m + i)).toUInt32 <<< (16 - d))).toUInt16) (by omega)
    refine ⟨u', ?_, fun k hk => ?_, fun k hk => ?_⟩
    · unfold shiftBack
      rw [← add_assoc pu m, ← add_assoc pu m, get_of_lt (by omega), get_of_lt (by omega)]
      simp only [Option.bind_eq_bind, Option.bind_some]
      rw [set_of_lt (by omega)]
      exact hloop
    · rcases Nat.lt_succ_iff_lt_or_eq.1 hk with hlt | rfl
      · rw [hdigits k hlt, Function.update_of_ne (by omega), Function.update_of_ne (by omega)]
      · rw [hframe _ (.inr (by omega)), Function.update_self]
    · rw [hframe k (by omega), Function.update_of_ne (by omega)]

theorem zeroDigits_spec : ∀ {i : ℕ} {q : Digits}, i ≤ 5 →
    ∃ q', zeroDigits i q = some q' ∧ (∀ k < i, q' k = 0) ∧ ∀ k, i ≤ k → q' k = q k
  | 0, q, _ => ⟨q, rfl, fun _ hk => absurd hk (Nat.not_lt_zero _), fun _ _ => rfl⟩
  | i + 1, q, h => by
    have hset : q.set i 0 = some (Function.update q i 0) := set_of_lt (by omega) 0
    obtain ⟨q', hloop, hzero, hframe⟩ :=
      zeroDigits_spec (i := i) (q := Function.update q i 0) (by omega)
    refine ⟨q', ?_, fun k hk => ?_, fun k hk => ?_⟩
    · unfold zeroDigits
      rw [hset]
      exact hloop
    · rcases Nat.lt_succ_iff_lt_or_eq.1 hk with hlt | rfl
      · exact hzero k hlt
      · rw [hframe k le_rfl, Function.update_self]
    · rw [hframe k (by omega), Function.update_of_ne (by omega)]

/-- Both numbers are multiplied by the same power of two, and the divisor's leading digit is half the
base at least. -/
theorem normalize_spec {u v : Digits} {pu pv m n : ℕ} {d : UInt32} (hu : pu + (m + (n + 2)) < 5)
    (hv : pv + (n + 2) < 5) (h0 : u pu = 0) (hd : d.toNat < 16)
    (hlt : (v (pv + 1)).toNat * 2 ^ d.toNat < 2 ^ 16) (hge : 2 ^ 15 ≤ (v (pv + 1)).toNat * 2 ^ d.toNat) :
    ∃ u' v', normalize u v pu pv m (n + 2) d = some (u', v')
      ∧ u'.num pu (m + (n + 2) + 1) = u.num pu (m + (n + 2) + 1) * 2 ^ d.toNat
      ∧ v'.num (pv + 1) (n + 2) = v.num (pv + 1) (n + 2) * 2 ^ d.toNat
      ∧ 2 ^ 15 ≤ (v' (pv + 1)).toNat ∧ ∀ k < pu, u' k = u k := by
  unfold normalize
  by_cases hpos : 0 < d
  · obtain ⟨u', hshl, hnum, hframe⟩ := shl_spec (a := u) hu hd (by rw [h0]; simp)
    obtain ⟨v', hshl', hnum', -⟩ := shl_spec (show pv + 1 + (n + 1) < 5 by omega) hd hlt
    refine ⟨u', v', ?_, hnum, hnum', ?_, fun k hk => hframe k (.inl hk)⟩
    · rw [if_pos hpos, hshl]
      simp only [Option.bind_eq_bind, Option.bind_some, show n + 2 - 1 = n + 1 by omega,
        hshl']
      rfl
    · have hrest := v'.num_lt (pv + 1 + 1) (n + 1)
      rw [num_head, num_head v, Nat.add_mul] at hnum'
      have hmul : (v (pv + 1)).toNat * 2 ^ d.toNat * (2 ^ 16) ^ (n + 1)
          < ((v' (pv + 1)).toNat + 1) * (2 ^ 16) ^ (n + 1) := by
        rw [Nat.succ_mul, mul_right_comm]
        omega
      have := Nat.lt_of_mul_lt_mul_right hmul
      omega
  · have hzero : d.toNat = 0 := Nat.eq_zero_of_not_pos fun h => hpos (UInt32.lt_iff_toNat_lt.2 h)
    rw [hzero, pow_zero, mul_one] at hge
    exact ⟨u, v, if_neg hpos, by rw [hzero, pow_zero, mul_one], by rw [hzero, pow_zero, mul_one], hge,
      fun _ _ => rfl⟩

/-- What is left over is divided by the power of two again. -/
theorem remainder_spec {u : Digits} {pu m n r : ℕ} {d : UInt32} (hm : pu + m + n = 4)
    (hz : ZerosTo u (pu + m)) (h0 : u (pu + m) = 0) (hd : d.toNat < 16)
    (hr : u.num (pu + m + 1) n = r * 2 ^ d.toNat) :
    ∃ x, remainder u pu m n d = some x ∧ x.toNat = r := by
  unfold remainder
  by_cases hne : d ≠ 0
  · obtain ⟨k, hk⟩ : ∃ k, d.toNat + k = 16 := ⟨16 - d.toNat, by omega⟩
    have hpos : 0 < d.toNat := Nat.pos_of_ne_zero fun h => hne (UInt32.toNat_inj.1 h)
    obtain ⟨u', hloop, hdigits, hframe⟩ := shiftBack_spec pu m d (i := n) (u := u) (by omega)
    obtain ⟨x, hjoin, hx⟩ := joinDigits_eq (Function.update u' (pu + m) 0)
    refine ⟨x, ?_, ?_⟩
    · rw [if_pos hne, hloop, Option.bind_some, set_of_lt (by omega), Option.bind_eq_bind, Option.bind_some]
      exact hjoin
    · have hzeros : ZerosTo (Function.update u' (pu + m) 0) (pu + m) := fun i h1 hi => by
        by_cases heq : i = pu + m
        · rw [heq, Function.update_self]
        · rw [Function.update_of_ne heq, hframe i (by omega)]
          exact hz i h1 hi
      have hpow : 2 ^ d.toNat * 2 ^ k = 2 ^ 16 := by rw [← pow_add, hk]
      have hun := radix_unscale (a := fun i => (u i).toNat) (f := fun i => (u' i).toNat) (s := pu + m)
        hpow n fun i hi => by
          rw [hdigits i hi, toNat_unshiftDigit hk hpos]
      have hlast := Nat.mod_lt (u (pu + m + n)).toNat (Nat.two_pow_pos d.toNat)
      have hsum : u'.num (pu + m + 1) n * 2 ^ d.toNat + (u (pu + m + n)).toNat % 2 ^ d.toNat
          = r * 2 ^ d.toNat := by
        rw [← hr]
        refine hun.trans ?_
        rw [h0]
        simp [num]
      have hquot : u'.num (pu + m + 1) n = r := by
        have hdiv : _ / 2 ^ d.toNat = _ / 2 ^ d.toNat := congrArg (· / 2 ^ d.toNat) hsum
        rwa [mul_comm, Nat.mul_add_div (Nat.two_pow_pos _), Nat.div_eq_of_lt hlast, Nat.add_zero,
          Nat.mul_div_cancel _ (Nat.two_pow_pos _)] at hdiv
      rw [hx, show (4 : ℕ) = pu + m + n by omega, hzeros.num_eq, num_update (.inl (Nat.lt_add_one _)), hquot]
  · have hzero : d.toNat = 0 := by rw [not_not.1 hne]; rfl
    obtain ⟨x, hjoin, hx⟩ := joinDigits_eq u
    refine ⟨x, ?_, ?_⟩
    · rw [if_neg hne, Option.bind_eq_bind, Option.bind_some]
      exact hjoin
    · rw [hx, show (4 : ℕ) = pu + m + n by omega, hz.num_eq, hr, hzero, pow_zero, mul_one]

/-- Program D divides: the quotient and the remainder are those of the two numbers. -/
theorem programD_spec {u v q : Digits} {pu pv m n fuel : ℕ} (hfuel : 16 ≤ fuel)
    (hm : m + (n + 2) + pu = 4) (hn : n + 2 + pv = 4) (hzu : ZerosTo u pu) (hu0 : u 0 = 0)
    (hzv : ZerosTo v pv) (hv : v (pv + 1) ≠ 0) (arq : Option UInt64) :
    ∃ x y, programD fuel u v q pu pv m (n + 2) arq = some (x, arq.map fun _ => y)
      ∧ x.toNat = u.num 1 4 / v.num 1 4 ∧ y.toNat = u.num 1 4 % v.num 1 4 := by
  have hpu : u pu = 0 := by
    rcases Nat.eq_zero_or_pos pu with rfl | hpos
    · exact hu0
    · exact hzu pu hpos le_rfl
  have hU : u.num 1 4 = u.num (pu + 1) (m + (n + 2)) := by
    rw [show (4 : ℕ) = pu + (m + (n + 2)) by omega, hzu.num_eq]
  have hV : v.num 1 4 = v.num (pv + 1) (n + 2) := by
    rw [show (4 : ℕ) = pv + (n + 2) by omega, hzv.num_eq]
  have hUlt := u.num_lt (pu + 1) (m + (n + 2))
  have hVle : (2 ^ 16) ^ (n + 1) ≤ v.num (pv + 1) (n + 2) := le_num hv
  rw [← hU] at hUlt
  rw [← hV] at hVle
  obtain ⟨q₀, hzeros, hq₀, -⟩ := zeroDigits_spec (i := 4 - m) (q := q) (by omega)
  obtain ⟨d, hshift, hd, hlt, hge⟩ := normShift_spec hv hfuel
  obtain ⟨u₁, v₁, hnorm, hu₁, hv₁, hhalf, hframe₁⟩ := normalize_spec
    (show pu + (m + (n + 2)) < 5 by omega) (by omega) hpu hd hlt hge
  rw [num_tail hpu, ← hU] at hu₁
  rw [← hV] at hv₁
  have hlead : u₁.num pu (n + 2) < v₁.num (pv + 1) (n + 2) := by
    have hsplit : u₁.num pu (m + (n + 2) + 1)
        = u₁.num pu (n + 2) * (2 ^ 16) ^ (m + 1) + u₁.num (pu + (n + 2)) (m + 1) := by
      rw [show m + (n + 2) + 1 = n + 2 + (m + 1) by omega]
      exact radix_split (n + 2) (m + 1)
    have hmul : u₁.num pu (n + 2) * (2 ^ 16) ^ (m + 1)
        < (2 ^ 16) ^ (n + 1) * 2 ^ d.toNat * (2 ^ 16) ^ (m + 1) := by
      calc u₁.num pu (n + 2) * (2 ^ 16) ^ (m + 1) ≤ u.num 1 4 * 2 ^ d.toNat := by
            rw [← hu₁, hsplit]
            exact Nat.le_add_right _ _
        _ < (2 ^ 16) ^ (m + (n + 2)) * 2 ^ d.toNat := Nat.mul_lt_mul_of_pos_right hUlt (Nat.two_pow_pos _)
        _ = _ := by
          rw [show m + (n + 2) = n + 1 + (m + 1) by omega, pow_add]
          ring
    rw [hv₁]
    exact (Nat.lt_of_mul_lt_mul_right hmul).trans_le (Nat.mul_le_mul_right _ hVle)
  obtain ⟨u', q', hloop, heq, hrem, hframe, hzero, hframeq⟩ := digitLoop_spec (v := v₁) (u := u₁)
    (q := q₀) (by omega : 3 ≤ fuel) (by omega) hhalf (show pu + 0 + (n + 2) + (m + 1) ≤ 5 by omega)
    (show 4 - m + 0 + (m + 1) ≤ 5 by omega) hlead
  simp only [Nat.add_zero] at heq hrem hframe hzero hframeq
  -- both numbers have the same factor, so the quotient is theirs and the remainder has it too
  rw [show n + 2 + (m + 1) = m + (n + 2) + 1 by omega, hu₁, hv₁] at heq
  rw [hv₁] at hrem
  have hpow : 0 < 2 ^ d.toNat := Nat.two_pow_pos _
  have hQ : q'.num (4 - m) (m + 1) = u.num 1 4 / v.num 1 4 := by
    rw [← Nat.mul_div_mul_right _ _ hpow, heq, mul_comm, Nat.mul_add_div (Nat.zero_lt_of_lt hrem),
      Nat.div_eq_of_lt hrem]
    exact (Nat.add_zero _).symm
  have hR : u'.num (pu + m + 1) (n + 2) = u.num 1 4 % v.num 1 4 * 2 ^ d.toNat := by
    rw [← Nat.mul_mod_mul_right, heq, mul_comm, Nat.mul_add_mod, Nat.mod_eq_of_lt hrem, add_assoc]
  obtain ⟨x, hjoin, hx⟩ := joinDigits_eq q'
  have hzu' : ZerosTo u' (pu + m) := fun k h1 hk => by
    rcases Nat.lt_or_ge k pu with hlt | hge
    · rw [hframe k hlt, hframe₁ k hlt]
      exact hzu k h1 hlt.le
    · exact hzero k hge (by omega)
  obtain ⟨y, hremainder, hy⟩ := remainder_spec (by omega) hzu' (hzero (pu + m) (by omega) (by omega)) hd hR
  refine ⟨x, y, ?_, ?_, hy⟩
  · unfold programD
    rw [hzeros, get_of_lt (by omega)]
    simp only [Option.bind_eq_bind, Option.bind_some, hshift, hnorm, get_of_lt (show pv + 1 < 5 by omega),
      get_of_lt (show pv + 2 < 5 by omega), hloop, hremainder, hjoin]
    cases arq <;> rfl
  · have hzq : ZerosTo q' (3 - m) := fun k _ hk => by
      rw [hframeq k (by omega)]
      exact hq₀ k (by omega)
    have hnum : q'.num 1 4 = q'.num (3 - m + 1) (m + 1) := by
      rw [show (4 : ℕ) = 3 - m + (m + 1) by omega, hzq.num_eq]
    rw [hx, hnum, show 3 - m + 1 = 4 - m by omega, hQ]

end QDivRem

open Digits QDivRem in
/-- `__qdivrem` gives the quotient and the remainder, whatever is on its stack. -/
theorem qdivrem_eq {fuel : ℕ} (hfuel : 16 ≤ fuel) (vspace qspace : Digits) (uq vq : UInt64)
    (arq : Option UInt64) :
    qdivrem fuel vspace qspace uq vq arq = some (uq / vq, arq.map fun _ => uq % vq) := by
  unfold qdivrem
  by_cases h0 : vq = 0
  · subst h0
    rw [if_pos rfl, UInt64.div_zero, UInt64.mod_zero]
  by_cases hlt : uq < vq
  · have hlt' := UInt64.lt_iff_toNat_lt.1 hlt
    have hdiv : uq / vq = 0 := UInt64.toNat_inj.1 (by
      rw [UInt64.toNat_div, Nat.div_eq_of_lt hlt']
      rfl)
    have hmod : uq % vq = uq := UInt64.toNat_inj.1 (by rw [UInt64.toNat_mod, Nat.mod_eq_of_lt hlt'])
    rw [if_neg h0, if_pos hlt, hdiv, hmod]
  rw [if_neg h0, if_neg hlt]
  have hle : vq.toNat ≤ uq.toNat := Nat.le_of_not_lt fun h => hlt (UInt64.lt_iff_toNat_lt.2 h)
  have hpos : 0 < vq.toNat := Nat.pos_of_ne_zero fun h => h0 (UInt64.toNat_inj.1 h)
  have hu := num_split (fun _ => 0) uq
  have hv := num_split vspace vq
  -- the answer by its numbers
  have hanswer {x y : UInt64} (hx : x.toNat = uq.toNat / vq.toNat) (hy : y.toNat = uq.toNat % vq.toNat) :
      x = uq / vq ∧ y = uq % vq :=
    ⟨UInt64.toNat_inj.1 (hx.trans (UInt64.toNat_div _ _).symm),
      UInt64.toNat_inj.1 (hy.trans (UInt64.toNat_mod _ _).symm)⟩
  dsimp only
  generalize hus : split (fun _ => 0) uq = u at hu ⊢
  generalize split vspace vq = v at hv ⊢
  have hu0 : u 0 = 0 := by
    rw [← hus]
    rfl
  have hnone : ZerosTo v 0 := fun k h1 hk => by omega
  rcases skipZeros_spec (v := v) (n := 3) (p := 0) rfl (by omega) hnone with
    ⟨hskip, hzv⟩ | ⟨n, pv, hskip, hn, hpv, hzv, hlead⟩
  · have hnum : v.num 1 4 = (v 4).toUInt32.toNat := by
      rw [show (4 : ℕ) = 3 + 1 by rfl, hzv.num_eq]
      simp [num, radix]
    have ht : (v 4).toUInt32 ≠ 0 := fun h => by
      rw [h] at hnum
      rw [hv] at hnum
      exact hpos.ne' hnum
    obtain ⟨x, y, hone, hx, hy⟩ := oneDigit_eq u ht (by simpa using (v 4).toNat_lt) arq
    rw [← hnum, hu, hv] at hx hy
    obtain ⟨rfl, rfl⟩ := hanswer hx hy
    rw [hskip, Option.bind_eq_bind, Option.bind_some]
    dsimp only
    rw [if_pos rfl, get_of_lt (show 2 + 2 < 5 by omega), Option.bind_eq_bind, Option.bind_some]
    exact hone
  · obtain ⟨n, rfl⟩ := Nat.exists_eq_add_of_le' hn
    have hVle : (2 ^ 16) ^ (n + 1) ≤ u.num 1 4 := by
      have hle' : (2 ^ 16) ^ (n + 1) ≤ v.num (pv + 1) (n + 2) := le_num hlead
      rw [show (4 : ℕ) = pv + (n + 2) by omega, hzv.num_eq] at hv
      rw [hu]
      omega
    obtain ⟨m, pu, hdividend, hm, hzu⟩ := skipDividend_spec (u := u) (n := n + 2) (by omega)
      (m := 4 - (n + 2)) (p := 0) (by omega) (fun k h1 hk => by omega)
      (by rw [show 4 - (n + 2) + (n + 2) = 4 by omega]; exact hVle)
    obtain ⟨x, y, hprog, hx, hy⟩ := programD_spec (q := qspace) hfuel hm hpv hzu hu0 hzv hlead arq
    rw [hu, hv] at hx hy
    obtain ⟨rfl, rfl⟩ := hanswer hx hy
    simp only [Option.bind_eq_bind, hskip, Option.bind_some, hdividend, hprog,
      if_neg (show n + 2 ≠ 1 by omega)]

/-- `__udivdi3` and `__umoddi3` divide: no loop goes on for ever and no access is out of an array, whatever
is on the stack. By zero the quotient is 0 and the remainder the dividend. -/
theorem udivdi3_umoddi3 {fuel : ℕ} (hfuel : 16 ≤ fuel) (vspace qspace : Digits) (r a b : UInt64) :
    udivdi3 fuel vspace qspace a b = some (a / b)
      ∧ umoddi3 fuel vspace qspace r a b = some (a % b) := by
  unfold udivdi3 umoddi3
  rw [qdivrem_eq hfuel, qdivrem_eq hfuel]
  exact ⟨rfl, rfl⟩

/-- An estimate that is too big even after the test, so that the divisor is added back. -/
theorem udivdi3_umoddi3_add_back : udivdi3 16 (fun _ => 7) (fun _ => 9) 0x7FFF800000000000 0x800000000001
      = some (0x7FFF800000000000 / 0x800000000001)
    ∧ umoddi3 16 (fun _ => 7) (fun _ => 9) 0 0x7FFF800000000000 0x800000000001
      = some (0x7FFF800000000000 % 0x800000000001) :=
  udivdi3_umoddi3 le_rfl _ _ _ _ _

end RTLKIM

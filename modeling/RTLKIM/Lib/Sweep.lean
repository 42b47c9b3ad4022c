import RTLKIM.Lib.Word

/-!
# Loops over pages

`sweep K body` runs `body` at `addr`, `addr + K`, … while bytes are left to do, and stops when
`body` says so. It is given steps to run with, as its bytes are words and it takes `K` of them a
time; `sweep_pages` says that one for each byte is enough, and is the rule of invariants for it.
-/

namespace RTLKIM

variable {σ : Type*} {K : ℕ}

/-- `while(to_do) { body; addr += K; to_do = to_do >= K ? to_do - K : 0; }`, where the flag that
`body` returns is its `break`. -/
def sweep (K : ℕ) (body : σ → ℕ → Option (σ × Bool)) : ℕ → σ → ℕ → ℕ → Option σ
  | 0, _, _, _ => none
  | fuel + 1, s, addr, toDo =>
    if toDo = 0 then some s
    else
      (body s addr).bind fun r =>
        if r.2 then some r.1
        else sweep K body fuel r.1 (add32 addr K) (if K ≤ toDo then sub32 toDo K else 0)

/-- One page done of those to do. -/
theorem next_page {a n m k : ℕ} (hbase : (a + n) * K < 2 ^ 32) (hk : k + (m + 1) = n) :
    (a + k) * K + (m * K + K) = (a + n) * K ∧ add32 ((a + k) * K) K = (a + (k + 1)) * K := by
  have hmul : (a + k) * K + (m * K + K) = (a + n) * K := by
    rw [← Nat.succ_mul, ← Nat.add_mul, Nat.add_assoc, Nat.succ_eq_add_one, hk]
  refine ⟨hmul, ?_⟩
  rw [add32_of_lt (by omega), ← Nat.add_assoc, Nat.succ_mul]

/-- A loop whose body always returns ends. -/
theorem sweep_total {body : σ → ℕ → Option (σ × Bool)} (hK : 0 < K)
    (hb : ∀ s addr, ∃ r, body s addr = some r) : ∀ (fuel : ℕ) (s : σ) (addr toDo : ℕ), toDo < fuel →
      toDo < 2 ^ 32 → ∃ s', sweep K body fuel s addr toDo = some s'
  | 0, _, _, _, hf, _ => absurd hf (Nat.not_lt_zero _)
  | fuel + 1, s, addr, toDo, hf, hmax => by
    by_cases h0 : toDo = 0
    · exact ⟨s, by rw [sweep, if_pos h0]⟩
    obtain ⟨r, hr⟩ := hb s addr
    rw [sweep, if_neg h0, hr, Option.bind_some]
    by_cases hbrk : r.2 = true
    · exact ⟨r.1, if_pos hbrk⟩
    rw [if_neg hbrk]
    split_ifs with h
    · rw [sub32_of_le h hmax]
      exact sweep_total hK hb fuel _ _ _ (by omega) (by omega)
    · exact sweep_total hK hb fuel _ _ _ (by omega) (by omega)

/-- What each round of a loop keeps, the loop keeps. -/
theorem sweep_keeps {I : σ → Prop} {body : σ → ℕ → Option (σ × Bool)}
    (hstep : ∀ s addr r, I s → body s addr = some r → I r.1) :
    ∀ {fuel : ℕ} {s s' : σ} {addr toDo : ℕ}, I s → sweep K body fuel s addr toDo = some s' → I s'
  | 0, _, _, _, _, _, h => nomatch h
  | fuel + 1, s, s', addr, toDo, hs, h => by
    rw [sweep] at h
    by_cases h0 : toDo = 0
    · rw [if_pos h0] at h
      exact Option.some.inj h ▸ hs
    · rw [if_neg h0] at h
      obtain ⟨r, hr, h⟩ := Option.bind_eq_some_iff.1 h
      have hI := hstep s addr r hs hr
      by_cases hbrk : r.2 = true
      · rw [if_pos hbrk] at h
        exact Option.some.inj h ▸ hI
      · rw [if_neg hbrk] at h
        exact sweep_keeps hstep hI h

section Rule

variable (body : σ → ℕ → Option (σ × Bool)) (I : ℕ → σ → Prop) (Stop : σ → Prop) {a n : ℕ}

/-- The rule from page `k` on, with `m` pages to do. -/
theorem sweep_from (hbase : (a + n) * K < 2 ^ 32)
    (hstep : ∀ k < n, ∀ s, I k s → ∃ r, body s ((a + k) * K) = some r
      ∧ if r.2 then Stop r.1 else I (k + 1) r.1) :
    ∀ (m k fuel toDo : ℕ) (s : σ), k + m = n → I k s → toDo ≤ m * K → m * K < toDo + K → m < fuel →
      ∃ s', sweep K body fuel s ((a + k) * K) toDo = some s' ∧ (I n s' ∨ Stop s')
  | _, _, 0, _, _, _, _, _, _, hf => by omega
  | 0, k, fuel + 1, toDo, s, hk, hs, h1, _, _ => by
    rw [sweep, if_pos (by omega)]
    exact ⟨s, rfl, .inl (by rwa [← hk])⟩
  | m + 1, k, fuel + 1, toDo, s, hk, hs, h1, h2, hf => by
    rw [Nat.succ_mul] at h1 h2
    obtain ⟨hmul, hadd⟩ := next_page hbase hk
    obtain ⟨⟨s', brk⟩, hb, hs'⟩ := hstep k (by omega) s hs
    rw [sweep, if_neg (by omega), hb, Option.bind_some]
    cases brk with
    | true => exact ⟨s', rfl, .inr hs'⟩
    | false =>
      have hleft : (if K ≤ toDo then sub32 toDo K else 0) = toDo - K := by
        split_ifs with h
        · exact sub32_of_le h (by omega)
        · omega
      simp only [Bool.false_eq_true, if_false, hadd, hleft]
      exact sweep_from hbase hstep m (k + 1) fuel (toDo - K) s' (by omega) hs' (by omega) (by omega)
        (by omega)

/-- With `I k` kept by the step at page `a + k`, the loop over the `n` pages that the bytes to do
are in ends, after all of them or at a step that breaks. -/
theorem sweep_pages (hK : 0 < K) (hbase : (a + n) * K < 2 ^ 32)
    (hstep : ∀ k < n, ∀ s, I k s → ∃ r, body s ((a + k) * K) = some r
      ∧ if r.2 then Stop r.1 else I (k + 1) r.1)
    {toDo : ℕ} (h1 : toDo ≤ n * K) (h2 : n * K < toDo + K) {s : σ} (hs : I 0 s) :
    ∃ s', sweep K body (toDo + 1) s (a * K) toDo = some s' ∧ (I n s' ∨ Stop s') := by
  have hn : n < toDo + 1 := by
    rcases n with _ | n
    · exact Nat.succ_pos _
    · have := Nat.le_mul_of_pos_right n hK
      rw [Nat.succ_mul] at h2
      omega
  exact sweep_from body I Stop hbase hstep n 0 (toDo + 1) toDo s (Nat.zero_add n) hs h1 h2 hn

/-- The loop stops if it comes to page `a + n`, where `body` breaks. -/
theorem sweep_stops (hbase : (a + n) * K < 2 ^ 32)
    (hstep : ∀ k < n, ∀ s, I k s → ∃ r, body s ((a + k) * K) = some r
      ∧ if r.2 then Stop r.1 else I (k + 1) r.1)
    (hlast : ∀ s, I n s → ∃ r, body s ((a + n) * K) = some r ∧ r.2 = true ∧ Stop r.1) :
    ∀ (m k fuel toDo : ℕ) (s : σ), k + m = n → I k s → m * K < toDo → toDo < 2 ^ 32 → m < fuel →
      ∃ s', sweep K body fuel s ((a + k) * K) toDo = some s' ∧ Stop s'
  | _, _, 0, _, _, _, _, _, _, hf => by omega
  | 0, k, fuel + 1, toDo, s, hk, hs, h1, _, _ => by
    obtain ⟨r, hr, hbrk, hstop⟩ := hlast s (by rwa [← hk])
    have hkn : k = n := by omega
    rw [sweep, if_neg (by omega), hkn, hr, Option.bind_some, if_pos hbrk]
    exact ⟨r.1, rfl, hstop⟩
  | m + 1, k, fuel + 1, toDo, s, hk, hs, h1, h2, hf => by
    rw [Nat.succ_mul] at h1
    obtain ⟨hmul, hadd⟩ := next_page hbase hk
    obtain ⟨⟨s', brk⟩, hb, hs'⟩ := hstep k (by omega) s hs
    rw [sweep, if_neg (by omega), hb, Option.bind_some]
    cases brk with
    | true => exact ⟨s', rfl, hs'⟩
    | false =>
      have hleft : (if K ≤ toDo then sub32 toDo K else 0) = toDo - K := by
        rw [if_pos (by omega), sub32_of_le (by omega) h2]
      simp only [Bool.false_eq_true, if_false, hadd, hleft]
      exact sweep_stops hbase hstep hlast m (k + 1) fuel (toDo - K) s' (by omega) hs' (by omega)
        (by omega) (by omega)

end Rule

/-! ## Two loops -/

section Sim

variable {τ : Type*} (body : σ → ℕ → Option (σ × Bool)) (body' : τ → ℕ → Option (τ × Bool))
  (R : σ → τ → Prop) {a n : ℕ}

/-- Bodies that agree on the words that are addresses make loops that agree. -/
theorem sweep_congr {body₁ body₂ : σ → ℕ → Option (σ × Bool)}
    (h : ∀ s, ∀ addr < 2 ^ 32, body₁ s addr = body₂ s addr) :
    ∀ (fuel : ℕ) (s : σ) (addr toDo : ℕ), addr < 2 ^ 32 →
      sweep K body₁ fuel s addr toDo = sweep K body₂ fuel s addr toDo
  | 0, _, _, _, _ => rfl
  | fuel + 1, s, addr, toDo, haddr => by
    rw [sweep, sweep, h s addr haddr]
    congr 2
    funext r
    rw [sweep_congr h fuel _ _ _ (add32_lt _ _)]

/-- A loop whose body does at each page what the body of the other does. -/
theorem sweep_sim (hbase : (a + n) * K < 2 ^ 32)
    (hstep : ∀ k < n, ∀ s t r, R s t → body' t ((a + k) * K) = some r →
      ∃ r', body s ((a + k) * K) = some r' ∧ r'.2 = r.2 ∧ R r'.1 r.1) :
    ∀ (fuel m k toDo : ℕ) (s : σ) (t t' : τ), k + m = n → toDo ≤ m * K → R s t →
      sweep K body' fuel t ((a + k) * K) toDo = some t' →
      ∃ s', sweep K body fuel s ((a + k) * K) toDo = some s' ∧ R s' t'
  | 0, _, _, _, _, _, _, _, _, _, h => by cases h
  | fuel + 1, m, k, toDo, s, t, t', hk, hm, hR, h => by
    rw [sweep] at h ⊢
    by_cases h0 : toDo = 0
    · rw [if_pos h0] at h ⊢
      exact ⟨s, rfl, Option.some.inj h ▸ hR⟩
    rw [if_neg h0] at h ⊢
    obtain ⟨r, hr, h⟩ := Option.bind_eq_some_iff.1 h
    obtain ⟨m, rfl⟩ : ∃ m', m = m' + 1 := by
      rcases m with _ | m
      · omega
      · exact ⟨m, rfl⟩
    obtain ⟨r', hr', hbrk, hR'⟩ := hstep k (by omega) s t r hR hr
    rw [hr', Option.bind_some, hbrk]
    by_cases hb : r.2 = true
    · rw [if_pos hb] at h ⊢
      exact ⟨r'.1, rfl, Option.some.inj h ▸ hR'⟩
    · rw [if_neg hb] at h ⊢
      rw [Nat.succ_mul] at hm
      obtain ⟨hmul, hadd⟩ := next_page hbase hk
      have hleft : (if K ≤ toDo then sub32 toDo K else 0) ≤ m * K := by
        split_ifs with hK
        · rw [sub32_of_le hK (by omega)]
          omega
        · exact Nat.zero_le _
      rw [hadd] at h ⊢
      exact sweep_sim hbase hstep fuel m (k + 1) _ r'.1 r.1 t' (by omega) hleft hR' h

end Sim

end RTLKIM

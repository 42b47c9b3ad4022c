import Mathlib.Data.Fintype.Pigeonhole
import Mathlib.Logic.Function.Iterate

/-!
# Loops along records

`stride` runs a body at `p`, `next p`, `next (next p)`, … while the position is below a limit, as a loop
over records does that tell their own lengths. It is given rounds to run with: a loop on the positions
below `n` that has no result after `n + 1` of them never has (`stride_never`). `Track` lists the
positions of one that ends, and the loop is its body along that list.
-/

namespace RTLKIM

variable {σ : Type*}

/-- `while(p < limit) { body; p = next p; }`, where the flag that `body` returns is its `break`. -/
def stride (next : ℕ → ℕ) (limit : ℕ) (body : σ → ℕ → Option (σ × Bool)) : ℕ → σ → ℕ → Option σ
  | 0, _, _ => none
  | fuel + 1, s, p =>
    if p < limit then
      (body s p).bind fun r => if r.2 then some r.1 else stride next limit body fuel r.1 (next p)
    else some s

/-- The body along a list of positions. -/
def strideOver (body : σ → ℕ → Option (σ × Bool)) : σ → List ℕ → Option σ
  | s, [] => some s
  | s, p :: l => (body s p).bind fun r => if r.2 then some r.1 else strideOver body r.1 l

/-- The positions from `p` on that are below the limit, up to the first that is not. -/
def Track (next : ℕ → ℕ) (limit : ℕ) : ℕ → List ℕ → Prop
  | p, [] => limit ≤ p
  | p, q :: l => q = p ∧ p < limit ∧ Track next limit (next p) l

/-- The loop comes to the `k`-th position if it does not break. -/
def Visits (next : ℕ → ℕ) (limit p k : ℕ) : Prop := ∀ j ≤ k, next^[j] p < limit

/-- Every position of a list is as `P` tells, after those before it. -/
def Each (l : List ℕ) (P : List ℕ → ℕ → Prop) : Prop := ∀ l₁ p l₂, l = l₁ ++ p :: l₂ → P l₁ p

variable {next : ℕ → ℕ} {limit p q : ℕ} {body : σ → ℕ → Option (σ × Bool)} {s r : σ} {l : List ℕ}

/-! ## Loops that end -/

theorem stride_of_track : ∀ {l : List ℕ} {p fuel : ℕ} {s : σ}, Track next limit p l → l.length < fuel →
    stride next limit body fuel s p = strideOver body s l
  | _, _, 0, _, _, hf => absurd hf (Nat.not_lt_zero _)
  | [], p, fuel + 1, s, h, _ => by
    rw [stride, if_neg (Nat.not_lt.2 h)]
    rfl
  | q :: l, p, fuel + 1, s, h, hf => by
    obtain ⟨rfl, hlt, h⟩ := h
    rw [stride, if_pos hlt, strideOver]
    congr 1
    funext r
    split_ifs
    · rfl
    · exact stride_of_track h (Nat.lt_of_succ_lt_succ hf)

/-- A loop that does not break and ends went along a track. -/
theorem track_of_stride (hb : ∀ s p u, body s p = some u → u.2 = false) :
    ∀ {fuel p : ℕ} {s : σ}, stride next limit body fuel s p = some r →
      ∃ l, Track next limit p l ∧ l.length < fuel ∧ strideOver body s l = some r
  | 0, _, _, h => nomatch h
  | fuel + 1, p, s, h => by
    rw [stride] at h
    split_ifs at h with hp
    · obtain ⟨u, hu, h⟩ := Option.bind_eq_some_iff.1 h
      have hbrk : ¬ u.2 = true := by simp [hb s p u hu]
      rw [if_neg hbrk] at h
      obtain ⟨l, hl, hlen, hr⟩ := track_of_stride hb h
      refine ⟨p :: l, ⟨rfl, hp, hl⟩, Nat.succ_lt_succ hlen, ?_⟩
      rw [strideOver, hu, Option.bind_some, if_neg hbrk]
      exact hr
    · exact ⟨[], Nat.le_of_not_lt hp, Nat.succ_pos _, h⟩

/-- The positions of a track that does not go down. -/
theorem Track.ge (hnext : ∀ q < limit, q ≤ next q) : ∀ {l : List ℕ} {p : ℕ}, Track next limit p l →
    ∀ q ∈ l, p ≤ q
  | [], _, _, _, hq => nomatch hq
  | _ :: l, p, h, q, hq => by
    obtain ⟨rfl, hlt, h⟩ := h
    rcases List.mem_cons.1 hq with rfl | hq
    · exact le_rfl
    · exact (hnext _ hlt).trans (h.ge hnext q hq)

/-- A body that does the same to related states makes a loop that does. -/
theorem stride_rel {R : σ → σ → Prop}
    (hb : ∀ s t p u, R s t → body s p = some u → ∃ t', body t p = some (t', u.2) ∧ R u.1 t') :
    ∀ {fuel p : ℕ} {s r t : σ}, R s t → stride next limit body fuel s p = some r →
      ∃ r', stride next limit body fuel t p = some r' ∧ R r r'
  | 0, _, _, _, _, _, h => nomatch h
  | fuel + 1, p, s, r, t, hR, h => by
    rw [stride] at h ⊢
    split_ifs at h ⊢ with hp
    · obtain ⟨u, hu, h⟩ := Option.bind_eq_some_iff.1 h
      obtain ⟨t', ht', hR'⟩ := hb s t p u hR hu
      rw [ht', Option.bind_some]
      dsimp only
      split_ifs at h ⊢
      · cases h
        exact ⟨t', rfl, hR'⟩
      · exact stride_rel hb hR' h
    · cases h
      exact ⟨t, rfl, hR⟩

/-- A fact of the state and the positions gone over that a round of a loop without a `break` keeps. -/
theorem strideOver_rule {I : List ℕ → σ → Prop} (hb : ∀ s p u, body s p = some u → u.2 = false)
    (hstep : ∀ before p s u, I before s → body s p = some u → I (before ++ [p]) u.1) :
    ∀ (l before : List ℕ) {s : σ}, I before s → strideOver body s l = some r → I (before ++ l) r
  | [], before, s, hs, h => by
    cases h
    rwa [List.append_nil]
  | p :: l, before, s, hs, h => by
    obtain ⟨u, hu, h⟩ := Option.bind_eq_some_iff.1 h
    rw [if_neg (by simp [hb s p u hu])] at h
    have hrest := strideOver_rule hb hstep l _ (hstep before p s u hs hu) h
    rwa [List.append_assoc] at hrest

/-! ## Positions and those before them -/

theorem each_nil {P : List ℕ → ℕ → Prop} : Each [] P := fun l₁ p l₂ h => by simp at h

theorem each_cons {P : List ℕ → ℕ → Prop} :
    Each (p :: l) P ↔ P [] p ∧ Each l fun l₁ q => P (p :: l₁) q := by
  constructor
  · exact fun h => ⟨h [] p l rfl, fun l₁ q l₂ hl => h (p :: l₁) q l₂ (by rw [hl]; rfl)⟩
  · rintro ⟨h0, h⟩ l₁ q l₂ hl
    rcases l₁ with _ | ⟨x, l₁⟩
    · obtain ⟨rfl, rfl⟩ : p = q ∧ l = l₂ := by simpa using hl
      exact h0
    · obtain ⟨rfl, htail⟩ : p = x ∧ l = l₁ ++ q :: l₂ := by simpa using hl
      exact h l₁ q l₂ htail

/-- The positions of a track are those the loop visits. -/
theorem Track.each_iff : ∀ {l : List ℕ} {p : ℕ} {P : List ℕ → ℕ → Prop}, Track next limit p l →
    (Each l P ↔ ∀ k, Visits next limit p k → P ((List.range k).map fun j => next^[j] p) (next^[k] p))
  | [], p, P, h => by
    refine iff_of_true each_nil fun k hv => ?_
    exact absurd (hv 0 (Nat.zero_le k)) (Nat.not_lt.2 h)
  | q :: l, p, P, h => by
    obtain ⟨rfl, hlt, h⟩ := h
    rw [each_cons, h.each_iff]
    have hbefore : ∀ k, q :: (List.range k).map (fun j => next^[j] (next q))
        = (List.range (k + 1)).map fun j => next^[j] q := by
      intro k
      rw [List.range_succ_eq_map, List.map_cons, List.map_map]
      rfl
    constructor
    · rintro ⟨h0, h⟩ k hv
      rcases k with _ | k
      · exact h0
      · have hk := h k fun j hj => hv (j + 1) (Nat.succ_le_succ hj)
        rw [hbefore] at hk
        exact hk
    · intro h
      refine ⟨h 0 fun j hj => ?_, fun k hv => ?_⟩
      · obtain rfl := Nat.le_zero.1 hj
        exact hlt
      · rw [hbefore]
        refine h (k + 1) fun j hj => ?_
        rcases j with _ | j
        · exact hlt
        · exact hv j (Nat.le_of_succ_le_succ hj)

/-! ## Loops that do not end -/

/-- A loop whose body breaks as the position tells, and that ends, needs the rounds to the first position
that is not below the limit or at which it breaks, and no more. -/
theorem stride_ends (brk : ℕ → Bool) (hb : ∀ s p u, body s p = some u → u.2 = brk p) :
    ∀ {fuel p : ℕ} {s : σ}, stride next limit body fuel s p = some r →
      ∃ k, (∀ j < k, next^[j] p < limit ∧ brk (next^[j] p) = false)
        ∧ ¬ (next^[k] p < limit ∧ brk (next^[k] p) = false)
        ∧ ∀ fuel', k < fuel' → stride next limit body fuel' s p = some r
  | 0, _, _, h => nomatch h
  | fuel + 1, p, s, h => by
    rw [stride] at h
    split_ifs at h with hp
    · obtain ⟨u, hu, h⟩ := Option.bind_eq_some_iff.1 h
      have hbrk := hb s p u hu
      split_ifs at h with hu₂
      · refine ⟨0, fun j hj => absurd hj (Nat.not_lt_zero j), ?_, fun fuel' hf => ?_⟩
        · rintro ⟨-, h0⟩
          rw [Function.iterate_zero_apply, ← hbrk, hu₂] at h0
          cases h0
        · obtain ⟨m, rfl⟩ := Nat.exists_eq_add_one.2 hf
          rw [stride, if_pos hp, hu, Option.bind_some, if_pos hu₂, h]
      · obtain ⟨k, hbefore, hlast, hfuel⟩ := stride_ends brk hb h
        refine ⟨k + 1, fun j hj => ?_, hlast, fun fuel' hf => ?_⟩
        · rcases j with _ | j
          · exact ⟨hp, by rw [Function.iterate_zero_apply, ← hbrk]; simpa using hu₂⟩
          · exact hbefore j (Nat.lt_of_succ_lt_succ hj)
        · obtain ⟨m, rfl⟩ := Nat.exists_eq_add_one.2 (Nat.zero_lt_of_lt hf)
          rw [stride, if_pos hp, hu, Option.bind_some, if_neg hu₂]
          exact hfuel m (Nat.lt_of_succ_lt_succ hf)
    · refine ⟨0, fun j hj => absurd hj (Nat.not_lt_zero j), fun h0 => hp h0.1, fun fuel' hf => ?_⟩
      obtain ⟨m, rfl⟩ := Nat.exists_eq_add_one.2 hf
      rw [stride, if_neg hp, h]

/-- A loop all of whose positions are below the limit does not end if it does not break. -/
theorem stride_forever (hb : ∀ s p u, body s p = some u → u.2 = false) (hp : ∀ k, next^[k] p < limit)
    (fuel : ℕ) : stride next limit body fuel s p = none := by
  rcases h : stride next limit body fuel s p with _ | r
  · rfl
  · obtain ⟨k, -, hlast, -⟩ := stride_ends (fun _ => false) hb h
    exact absurd ⟨hp k, rfl⟩ hlast

/-- The positions repeat after `n` of them. -/
theorem iterate_repeats {n : ℕ} (hnext : ∀ q, next q < n) (hp : p < n) (k : ℕ) :
    ∃ m ≤ n, next^[k] p = next^[m] p := by
  have hlt : ∀ i, next^[i] p < n := by
    intro i
    rcases i with _ | i
    · exact hp
    · rw [Function.iterate_succ_apply']
      exact hnext _
  obtain ⟨i, j, hij, heq⟩ := Fintype.exists_ne_map_eq_of_card_lt
    (fun i : Fin (n + 1) => (⟨next^[(i : ℕ)] p, hlt i⟩ : Fin n)) (by simp)
  have heq' : next^[(i : ℕ)] p = next^[(j : ℕ)] p := congrArg Fin.val heq
  -- past `j` it is where it was one turn before
  have hturn : ∀ {a b : ℕ}, a < b → b ≤ n → next^[a] p = next^[b] p → ∃ m ≤ n, next^[k] p = next^[m] p := by
    intro a b hab hb h
    induction k using Nat.strong_induction_on with
    | _ k ih =>
      by_cases hk : k < b
      · exact ⟨k, by omega, rfl⟩
      · obtain ⟨m, hm, hkm⟩ := ih (k - b + a) (by omega)
        refine ⟨m, hm, ?_⟩
        rw [← hkm]
        have hsplit : k = (k - b) + b := by omega
        rw [hsplit, Function.iterate_add_apply, ← h, ← Function.iterate_add_apply]
        congr 2
        omega
  rcases Nat.lt_or_gt_of_ne (fun h => hij (Fin.ext h)) with h | h
  · exact hturn h (Nat.le_of_lt_succ j.2) heq'
  · exact hturn h (Nat.le_of_lt_succ i.2) heq'.symm

/-- A loop on the positions below `n` that has no result after `n + 1` rounds never has. -/
theorem stride_never (brk : ℕ → Bool) {n : ℕ} (hb : ∀ s p u, body s p = some u → u.2 = brk p)
    (hnext : ∀ q, next q < n) (hp : p < n) (h : stride next limit body (n + 1) s p = none) (fuel : ℕ) :
    stride next limit body fuel s p = none := by
  rcases hr : stride next limit body fuel s p with _ | r
  · rfl
  obtain ⟨k, hbefore, hlast, hfuel⟩ := stride_ends brk hb hr
  obtain ⟨m, hm, hkm⟩ := iterate_repeats hnext hp k
  have hk : k ≤ m := by
    by_contra hlt
    rw [hkm] at hlast
    exact hlast (hbefore m (Nat.lt_of_not_le hlt))
  rw [hfuel (n + 1) (Nat.lt_succ_of_le (hk.trans hm))] at h
  cases h

/-- A record that tells no length is never left. -/
theorem stride_stuck (hb : ∀ s p u, body s p = some u → u.2 = false) {k : ℕ}
    (hv : Visits next limit p k) (hk : next (next^[k] p) = next^[k] p) (fuel : ℕ) :
    stride next limit body fuel s p = none := by
  refine stride_forever hb (fun j => ?_) fuel
  by_cases hj : j ≤ k
  · exact hv j hj
  · have hfix : ∀ m, next^[k + m] p = next^[k] p := by
      intro m
      induction m with
      | zero => rfl
      | succ m ih => rw [← Nat.add_assoc, Function.iterate_succ_apply', ih, hk]
    rw [show j = k + (j - k) by omega, hfix]
    exact hv k le_rfl

/-! ## Counters -/

/-- A counter of `n` values that does not come to wrap. -/
theorem track_counter {n : ℕ} (hlim : limit < n) : ∀ (m i : ℕ), i + m = limit →
    Track (fun i => (i + 1) % n) limit i (List.range' i m)
  | 0, i, h => Nat.le_of_eq h.symm
  | m + 1, i, h => by
    refine ⟨rfl, by omega, ?_⟩
    have hmod : (i + 1) % n = i + 1 := Nat.mod_eq_of_lt (by omega)
    simp only [hmod]
    exact track_counter hlim m (i + 1) (by omega)

/-- A counter of `n` values is always below a limit past them. -/
theorem stride_counter_never {n : ℕ} (hn : 0 < n) (hlim : n ≤ limit)
    (hb : ∀ s p u, body s p = some u → u.2 = false) (hp : p < n) (fuel : ℕ) :
    stride (fun i => (i + 1) % n) limit body fuel s p = none := by
  refine stride_forever hb (fun k => lt_of_lt_of_le ?_ hlim) fuel
  rcases k with _ | k
  · exact hp
  · rw [Function.iterate_succ_apply']
    exact Nat.mod_lt _ hn

end RTLKIM

import Mathlib.Data.List.Range

/-!
# Loops that may fail

A loop over a list, with `none` for a round that cannot be made, and a loop that goes on while a test
holds, with `none` for one that does not end in so many tests.
-/

namespace RTLKIM

variable {σ α : Type*}

/-- A loop ends when what each round needs is there at the start and is kept by a round. -/
theorem foldlM_inv {f : σ → α → Option σ} {P : σ → Prop} : ∀ {l : List α} {s : σ},
    (∀ a ∈ l, ∀ s, P s → ∃ s', f s a = some s' ∧ P s') → P s →
    ∃ s', l.foldlM f s = some s' ∧ P s'
  | [], s, _, h => ⟨s, rfl, h⟩
  | a :: l, s, hf, h => by
    obtain ⟨s₁, h₁, hP⟩ := hf a List.mem_cons_self s h
    obtain ⟨s', hs', hP'⟩ := foldlM_inv (fun b hb => hf b (List.mem_cons_of_mem a hb)) hP
    refine ⟨s', ?_, hP'⟩
    rw [List.foldlM_cons, h₁]
    exact hs'

/-- The last round of a loop that counts. -/
theorem foldlM_range_succ (f : σ → ℕ → Option σ) (n : ℕ) (s : σ) :
    (List.range (n + 1)).foldlM f s = ((List.range n).foldlM f s).bind fun s' => f s' n := by
  rw [List.range_succ, List.foldlM_append]
  refine congrArg _ (funext fun s' => ?_)
  rw [List.foldlM_cons]
  cases f s' n <;> rfl

/-- A loop that counts, when each round is known to come to `g` of its number. -/
theorem foldlM_range_eq {f : σ → ℕ → Option σ} {g : ℕ → σ} : ∀ {n : ℕ},
    (∀ i < n, f (g i) i = some (g (i + 1))) → (List.range n).foldlM f (g 0) = some (g n)
  | 0, _ => rfl
  | n + 1, h => by
    rw [foldlM_range_succ, foldlM_range_eq fun i hi => h i (Nat.lt_succ_of_lt hi), Option.bind_some]
    exact h n (Nat.lt_succ_self n)

/-- A loop that makes `fuel` tests at most. -/
def whileLoop (test : σ → Bool) (body : σ → σ) : ℕ → σ → Option σ
  | 0, _ => none
  | fuel + 1, s => if test s then whileLoop test body fuel (body s) else some s

/-- A loop ends when a round leaves fewer rounds to make; `P n` is kept with `n` rounds left at most. -/
theorem whileLoop_inv (test : σ → Bool) (body : σ → σ) {P : ℕ → σ → Prop}
    (hbody : ∀ n s, P n s → test s = true → ∃ m < n, P m (body s)) :
    ∀ {fuel n : ℕ} {s : σ}, P n s → n < fuel →
      ∃ s' m, whileLoop test body fuel s = some s' ∧ test s' = false ∧ P m s'
  | fuel + 1, n, s, h, hn => by
    unfold whileLoop
    by_cases htest : test s = true
    · obtain ⟨m, hm, hP⟩ := hbody n s h htest
      rw [if_pos htest]
      exact whileLoop_inv test body hbody hP (by omega)
    · exact ⟨s, n, if_neg htest, Bool.eq_false_iff.2 htest, h⟩

end RTLKIM

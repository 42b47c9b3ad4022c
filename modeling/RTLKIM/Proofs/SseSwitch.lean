import RTLKIM.SseSwitch
import Mathlib.Data.List.Induction

/-!
# Nothing is restored

The handler saves the registers, twice, to the area of the thread that runs, and never loads them.
So the registers are those of the last writes, whoever made them, and a thread observes its own only
when they are the same.
-/

namespace RTLKIM

namespace SseCpu

variable {τ ι ρ : Type*} [DecidableEq τ] [DecidableEq ι] {s : SseCpu τ ι ρ}
  {es : List (SseEv τ ι ρ)}

omit [DecidableEq ι] in
/-- The handler leaves the registers and the thread. -/
theorem sseUseExceptionHandler_regs : s.sseUseExceptionHandler.regs = s.regs
    ∧ s.sseUseExceptionHandler.current = s.current := by
  unfold sseUseExceptionHandler fxsave
  simp only []
  split_ifs <;> exact ⟨rfl, rfl⟩

omit [DecidableEq ι] in
theorem useSse_regs : s.useSse.regs = s.regs ∧ s.useSse.current = s.current := by
  unfold useSse
  split_ifs
  · exact sseUseExceptionHandler_regs
  · exact ⟨rfl, rfl⟩

theorem run_concat (e : SseEv τ ι ρ) : s.run (es ++ [e]) = (s.run es).step e := by
  simp [run]

end SseCpu

namespace SseHistory

variable {τ ι ρ : Type*} [DecidableEq τ] [DecidableEq ι] {t : τ} {es : List (SseEv τ ι ρ)}

theorem ofRun_concat (e : SseEv τ ι ρ) : ofRun t (es ++ [e]) = (ofRun t es).step e := by
  simp [ofRun]

/-- What a thread wrote was written. -/
theorem last_of_own : ∀ (t' : τ) (i : ι) (x : ρ), (ofRun t es).own t' i = some x →
    ∃ y, (ofRun t es).last i = some y := by
  induction es using List.reverseRecOn with
  | nil => exact fun _ _ _ h => by cases h
  | append_singleton es e ih =>
    intro t' i x h
    rw [ofRun_concat] at h ⊢
    cases e with
    | switch _ => exact ih t' i x h
    | read _ => exact ih t' i x h
    | write j v =>
      by_cases hij : i = j
      · exact ⟨v, by simp [step, hij]⟩
      · have hlast : ((ofRun t es).step (.write j v)).last i = (ofRun t es).last i :=
          Function.update_of_ne hij _ _
        rw [hlast]
        refine ih t' i x ?_
        simp only [step] at h
        by_cases ht : t' = (ofRun t es).current
        · rw [ht] at h ⊢
          rwa [Function.update_self, Function.update_of_ne hij] at h
        · rwa [Function.update_of_ne ht] at h

end SseHistory

namespace SseCpu

variable {τ ι ρ : Type*} [DecidableEq τ] [DecidableEq ι] {s : SseCpu τ ι ρ}

/-- The registers are those of the last writes. -/
theorem run_regs (es : List (SseEv τ ι ρ)) :
    (s.run es).current = (SseHistory.ofRun s.current es).current
      ∧ ∀ i, (s.run es).regs i = ((SseHistory.ofRun s.current es).last i).getD (s.regs i) := by
  induction es using List.reverseRecOn with
  | nil => exact ⟨rfl, fun _ => rfl⟩
  | append_singleton es e ih =>
    rw [run_concat, SseHistory.ofRun_concat]
    obtain ⟨hregs, hcurrent⟩ := useSse_regs (s := s.run es)
    cases e with
    | switch t => exact ⟨rfl, ih.2⟩
    | read i => exact ⟨hcurrent.trans ih.1, fun j => by rw [step, hregs]; exact ih.2 j⟩
    | write i v =>
      refine ⟨hcurrent.trans ih.1, fun j => ?_⟩
      simp only [step, SseHistory.step, hregs]
      by_cases hij : j = i
      · rw [hij, Function.update_self, Function.update_self]
        rfl
      · rw [Function.update_of_ne hij, Function.update_of_ne hij]
        exact ih.2 j

/-- Threads observe what they wrote exactly when, at each such read, the last write to the register
by any thread was of the same. -/
theorem transparent_iff (s : SseCpu τ ι ρ) (es : List (SseEv τ ι ρ)) : s.Transparent es
    ↔ ∀ (u : List (SseEv τ ι ρ)) (i : ι) (v : List (SseEv τ ι ρ)), es = u ++ .read i :: v →
      ∀ x, (SseHistory.ofRun s.current u).own (SseHistory.ofRun s.current u).current i = some x →
        (SseHistory.ofRun s.current u).last i = some x := by
  refine forall₃_congr fun u i v => imp_congr_right fun _ => forall_congr' fun x =>
    imp_congr_right fun hown => ?_
  obtain ⟨y, hy⟩ := SseHistory.last_of_own _ _ _ hown
  have hobs : (s.run u).observed i = y := by
    rw [observed, useSse_regs.1, (run_regs u).2, hy]
    rfl
  rw [hobs, hy, Option.some_inj]

/-- Two threads write a register in turn, and the first reads what the second wrote. -/
theorem not_transparent :
    ¬ (⟨fun _ => 0, false, none, fun _ _ => 0, 1⟩ : SseCpu ℕ ℕ ℕ).Transparent
      [.write 0 5, .switch 2, .write 0 7, .switch 1, .read 0] := by
  intro h
  have h5 := h [.write 0 5, .switch 2, .write 0 7, .switch 1] 0 [] rfl 5
    (by simp [SseHistory.ofRun, SseHistory.step])
  rw [observed, useSse_regs.1, (run_regs _).2] at h5
  simp [SseHistory.ofRun, SseHistory.step] at h5

end SseCpu

end RTLKIM

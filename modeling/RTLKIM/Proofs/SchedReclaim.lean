import RTLKIM.Proofs.SchedJoin
import RTLKIM.Proofs.Reclaim

/-!
# The scheduler reclaims no thread that runs

`sched_clean_joined_thread` runs on a thread in two places of `sched_wait_thread`. In a run where
neither the test for a zombie nor the election of a joiner comes before the thread has left its CPU,
`Parked` holds at both.
-/

namespace RTLKIM

open JoinView

namespace Sched

variable {s s' : Sched} {t x c now n : ℕ} {e : SchedEv}

theorem TestsInTime.recordsInTime (hst : s.Steady) (h : s.TestsInTime e) : s.RecordsInTime e := by
  cases e with
  | initAp | call | timer => trivial
  | stmt c now =>
    intro t x i hc ht hw
    have hlt : x < s.created := hst.bound.target t x (congrArg Pc.target ht)
    have := (h t hc x hlt).2 ht
    rw [hw] at this
    cases this

theorem label_timer (h : s.label e = .timer t) :
    ∃ c now, e = .timer c now ∧ s.activeThread c = some t := by
  cases e with
  | initAp | call => cases h
  | stmt c now =>
    have h' : (s.activeThread c).elim Label.other Label.stmt = .timer t := h
    rcases hc : s.activeThread c with _ | y <;> rw [hc] at h' <;> cases h'
  | timer c now =>
    have h' : (s.activeThread c).elim Label.other Label.timer = .timer t := h
    rcases hc : s.activeThread c with _ | y
    · rw [hc] at h'
      cases h'
    · rw [hc] at h'
      cases h'
      exact ⟨c, now, rfl, hc⟩

/-- The CPU of a step is that of the thread it concerns. -/
theorem label_cpu (h : s.label e = .timer t ∨ s.label e = .stmt t) :
    s.activeThread e.cpu = some t := by
  rcases h with h | h
  · obtain ⟨c, now, rfl, hc⟩ := label_timer h
    exact hc
  · obtain ⟨c, now, rfl, hc⟩ := label_stmt h
    exact hc

theorem Steady.parked_step (hst : s.Steady) (hst' : s'.Steady) (hw : s'.joinView.Woken)
    (h : s.joinView.Parked) (hok : s.ReclaimsInTime e) (hs : s.step e = some s')
    (hm : Move s.joinView (s.label e) s'.joinView) : s'.joinView.Parked := by
  -- the active thread of a CPU is the active thread of its own
  have hown : ∀ {c y}, s.activeThread c = some y → (s.thread y).cpuAffinity = c := fun hc =>
    (hst.core.active _ _ hc).1
  refine h.move hst.core.coherent hst'.core.coherent hst.bound hw hm ?_ ?_
  · intro t x hl hp hz c hc
    obtain ⟨c₀, now, rfl, hc₀⟩ := label_stmt hl
    have hlt : x < s.created := hst.bound.target t x (congrArg Pc.target hp)
    refine (hok.1 t hc₀ x hlt).1 hp hz ?_
    rw [hown hc]
    exact hc
  · intro c t n x hl hc hn hp c' hcc hc'
    have hce : c = e.cpu := (hown hc).symm.trans (hown (label_cpu hl))
    subst hce
    have hlt : x < s.created := (hst.core.active c' x hc').2
    refine hok.2 s' hs n hn x hlt hp ?_ ?_
    · rw [hown hc']
      exact hcc
    · rw [hown hc']
      exact hc'

theorem schedInit_joiningThread (n x : ℕ) : ((schedInit n).thread x).joiningThread = none := by
  by_cases h1 : x = 1
  · subst h1
    rfl
  by_cases h0 : x = 0
  · subst h0
    rfl
  have e₁ : (schedInit n).thread x = (((blank n).createIdle 0).setThread 0 fun T =>
      { T with children := T.children.map (1 :: ·) }).thread x := Function.update_of_ne h1 _ _
  have e₂ : ((blank n).createIdle 0).thread x = (blank n).thread x := Function.update_of_ne h0 _ _
  rw [e₁, setThread_of_ne h0, e₂]
  rfl

theorem woken_schedInit (n : ℕ) : (schedInit n).joinView.Woken := by
  have hpc : ∀ t, (schedInit n).joinView.pc t = if t < 2 then .run else .exited := schedInit_pc n
  refine ⟨fun x j hj _ => ?_, fun j x hj => ?_, fun j x hj => ?_⟩
  · rw [show (schedInit n).joinView.slot x = none from schedInit_joiningThread n x] at hj
    cases hj
  · rw [hpc] at hj
    split_ifs at hj <;> simp at hj
  · rw [hpc] at hj
    split_ifs at hj

theorem parked_schedInit (n : ℕ) : (schedInit n).joinView.Parked := by
  have hpc : ∀ t, (schedInit n).joinView.pc t = if t < 2 then .run else .exited := schedInit_pc n
  refine ⟨fun j x hj => ?_, fun c j x _ hj => ?_⟩
  · rw [hpc] at hj
    split_ifs at hj <;> simp at hj
  · rw [hpc] at hj
    split_ifs at hj

/-- In a run whose steps come in time, no thread is reclaimed that is the active one of a CPU. -/
theorem run_cleans_parked (h : Reach step ReclaimsInTime (schedInit n) s) (e : SchedEv) (x : ℕ)
    (he : s.Cleans x e) (c : ℕ) : s.activeThread c ≠ some x := by
  have hinv : s.Steady ∧ s.joinView.Woken ∧ s.joinView.Parked := by
    refine h.invariant (P := fun s => s.Steady ∧ s.joinView.Woken ∧ s.joinView.Parked)
      ⟨.schedInit n, woken_schedInit n, parked_schedInit n⟩ ?_
    rintro s e s' ⟨hst, hw, hp⟩ hok hs
    obtain ⟨hst', hm⟩ := hst.step (hok.1.recordsInTime hst) hs
    have hw' := hw.move hst.core.coherent hst.bound hm
    exact ⟨hst', hw', hst.parked_step hst' hw' hp hok hs hm⟩
  cases e with
  | initAp | call | timer => cases he
  | stmt c₀ now =>
    obtain ⟨j, hj, h1 | h1⟩ := he
    · exact (hinv.2.2.marked j x (.inr h1)).2 c
    · exact hinv.2.2.resumed c₀ j x hj h1 c

/-- Init waits for a thread that has exited and left its CPU. -/
theorem run_cleans_parked_after_exit : ∃ s : Sched, Reach step ReclaimsInTime (schedInit 2) s
    ∧ s.Cleans 2 (.stmt 0 0) ∧ s.freed 2 = false ∧ ∀ c, s.activeThread c ≠ some 2 := by
  have hrun : ((runEvents (guarded step ReclaimsInTime) (schedInit 2)
      [.timer 0 0, .call 0 0 (.create 0 1 6), .initAp 1, .timer 1 0, .call 1 0 (.exit none),
        .stmt 1 0, .stmt 1 0, .stmt 1 0, .stmt 1 0, .stmt 1 0, .stmt 1 0, .stmt 1 0, .stmt 1 0,
        .stmt 1 0, .stmt 1 0, .call 0 0 (.wait (some 2)), .stmt 0 0, .stmt 0 0, .stmt 0 0]).map
      fun s => (s.activeThread 0, s.pc 1, s.freed 2)) = some (some 1, .waitClean 2, false) := by
    decide +kernel
  obtain ⟨s, h, hs⟩ := Option.map_eq_some_iff.1 hrun
  simp only [Prod.mk.injEq] at hs
  obtain ⟨h1, h2, h3⟩ := hs
  have hclean : s.Cleans 2 (.stmt 0 0) := ⟨1, h1, .inl h2⟩
  exact ⟨s, .of_run h, hclean, h3, run_cleans_parked (.of_run h) _ 2 hclean⟩

/-- Init finds the thread a zombie while it runs on CPU 1, and frees it there. -/
theorem cleans_active_zombie : ∃ s s' : Sched, Reach step anyStep (schedInit 2) s
    ∧ s.Cleans 2 (.stmt 0 0) ∧ s.activeThread 1 = some 2
    ∧ s.step (.stmt 0 0) = some s' ∧ s.freed 2 = false ∧ s'.freed 2 = true := by
  have hrun : ((runEvents (guarded step anyStep) (schedInit 2)
      [.timer 0 0, .call 0 0 (.create 0 1 6), .initAp 1, .timer 1 0, .call 1 0 (.exit none),
        .stmt 1 0, .call 0 0 (.wait (some 2)), .stmt 0 0, .stmt 0 0, .stmt 0 0]).map
      fun s => (s.activeThread 0, s.pc 1, s.activeThread 1, s.freed 2,
        (s.step (.stmt 0 0)).map fun s' => s'.freed 2))
      = some (some 1, .waitClean 2, some 2, false, some true) := by decide +kernel
  obtain ⟨s, h, hs⟩ := Option.map_eq_some_iff.1 hrun
  simp only [Prod.mk.injEq] at hs
  obtain ⟨h1, h2, h3, h4, h5⟩ := hs
  obtain ⟨s', hs', hf⟩ := Option.map_eq_some_iff.1 h5
  exact ⟨s, s', .of_run h, ⟨1, h1, .inl h2⟩, h3, hs', h4, hf⟩

end Sched

end RTLKIM

import Mathlib.Data.Fintype.Basic
import RTLKIM.Semaphore
import RTLKIM.Lib.Run

/-!
# What semaphores keep

`Does` lists what a step can do to the semaphore. The level counts posts and acquisitions, the
threads due are enough for it while others wait, and once the semaphore is destroyed nobody waits in
its queue and every section returns `OS_ERR_SEM_UNINITIALIZED`.
-/

namespace RTLKIM

/-! ## Levels -/

theorem Int32.toInt_add_one_le (a : Int32) : (a + 1).toInt ≤ a.toInt + 1 := by
  have h1 := Int32.toInt_lt a
  have h2 := Int32.le_toInt a
  rw [Int32.toInt_add, Int32.toInt_one]
  by_cases h : a.toInt + 1 < 2 ^ 31
  · rw [Int.bmod_eq_of_le (by omega) (by omega)]
  · have := @Int.bmod_le (a.toInt + 1) (2 ^ 32) (by decide)
    omega

theorem Int32.toInt_add_one {a : Int32} (h : a.toInt < 2 ^ 31 - 1) :
    (a + 1).toInt = a.toInt + 1 := by
  have h2 := Int32.le_toInt a
  rw [Int32.toInt_add, Int32.toInt_one, Int.bmod_eq_of_le (by omega) (by omega)]

theorem Int32.toInt_sub_one {a : Int32} (h : 1 ≤ a.toInt) : (a - 1).toInt = a.toInt - 1 := by
  have h1 := Int32.toInt_lt a
  rw [Int32.toInt_sub, Int32.toInt_one, Int.bmod_eq_of_le (by omega) (by omega)]

theorem Int32.lt_one_iff (a : Int32) : a < 1 ↔ a.toInt < 1 := by
  rw [Int32.lt_iff_toInt_lt, Int32.toInt_one]

theorem Int32.pos_iff (a : Int32) : 0 < a ↔ 0 < a.toInt := by
  rw [Int32.lt_iff_toInt_lt, Int32.toInt_zero]

variable {τ : Type} [DecidableEq τ]

namespace SemSys

variable {s s' : SemSys τ} {e : SemEv τ} {t x : τ}

/-- What a step does. -/
inductive Does (s : SemSys τ) (e : SemEv τ) (s' : SemSys τ) : Prop
  | acquire (t : τ) (ht : s.sem.waiters.phase t = .out ∨ s.sem.waiters.phase t = .woken)
      (hi : s.sem.init = true) (hl : 1 ≤ s.sem.level.toInt)
      (hm : s'.sem = { s.sem with level := s.sem.level - 1, waiters := s.sem.waiters.leave t })
      (hu : s'.unlocks = s.unlocks) (hp : s'.posted = s.posted) (ha : s'.acquired = s.acquired + 1)
  | park (t : τ) (ht : s.sem.waiters.phase t = .out ∨ s.sem.waiters.phase t = .woken)
      (hi : s.sem.init = true) (hl : s.sem.level.toInt < 1)
      (hm : s'.sem = { s.sem with waiters := s.sem.waiters.park t })
      (hu : s'.unlocks = s.unlocks) (hp : s'.posted = s.posted) (ha : s'.acquired = s.acquired)
  | fails (t : τ) (ht : s.sem.waiters.phase t = .out ∨ s.sem.waiters.phase t = .woken)
      (hf : s.sem.init = true → s.sem.waiters.phase t = .out)
      (hm : s'.sem = { s.sem with waiters := s.sem.waiters.leave t })
      (hu : s'.unlocks = s.unlocks) (hp : s'.posted = s.posted) (ha : s'.acquired = s.acquired)
  | post (t : τ) (he : e = .post t) (hi : s.sem.init = true)
      (hm : s'.sem = { s.sem with level := s.sem.level + 1 })
      (hq : (s.sem.level + 1).toInt ≤ 0 ∨ s.sem.waiters.queue = [])
      (hu : s'.unlocks = s.unlocks) (hp : s'.posted = s.posted + 1) (ha : s'.acquired = s.acquired)
  | pop (t x : τ) (he : e = .post t) (ht : s.unlocks t = none) (hi : s.sem.init = true)
      (hx : s.sem.waiters.queue.getLast? = some x)
      (hm : s'.sem = { s.sem with level := s.sem.level + 1, waiters := s.sem.waiters.pop x })
      (hu : s'.unlocks = Function.update s.unlocks t (some x)) (hp : s'.posted = s.posted + 1)
      (ha : s'.acquired = s.acquired)
  | unlock (t x : τ) (ht : s.unlocks t = some x)
      (hm : s'.sem = { s.sem with waiters := s.sem.waiters.wake x })
      (hu : s'.unlocks = Function.update s.unlocks t none) (hp : s'.posted = s.posted)
      (ha : s'.acquired = s.acquired)
  | destroy (hi : s.sem.init = true)
      (w : Waiters τ) (hw : Waiters.wakeAll s.sem.waiters.queue.reverse s.sem.waiters = some w)
      (hm : s'.sem = { s.sem with init := false, waiters := w })
      (hu : s'.unlocks = s.unlocks) (hp : s'.posted = s.posted) (ha : s'.acquired = s.acquired)

theorem unlockThread_ok {m m' : Sem τ} (h : (m.unlockThread x).toOption = some m') :
    m' = { m with waiters := m.waiters.wake x } := by
  unfold Sem.unlockThread at h
  rcases hw : m.waiters.wakeWaiting x with _ | w
  · rw [hw] at h
    cases h
  · rw [hw] at h
    cases h
    rw [Waiters.wakeWaiting_ok hw]

/-- `sem_destroy` changes nothing, or wakes up the whole queue. -/
theorem semDestroy_cases {m : Sem τ} {p : SemErr × Sem τ} (h : m.semDestroy.toOption = some p) :
    (m.init = false ∧ p = (.semUninitialized, m))
      ∨ m.init = true ∧ ∃ w, Waiters.wakeAll m.waiters.queue.reverse m.waiters = some w
        ∧ p = (.noErr, { m with init := false, waiters := w }) := by
  unfold Sem.semDestroy at h
  split_ifs at h with hi
  · cases h
    exact .inl ⟨hi, rfl⟩
  · unfold Sem.unlockAll at h
    dsimp only at h
    rcases hw : Waiters.wakeAll m.waiters.queue.reverse m.waiters with _ | w
    · rw [hw] at h
      cases h
    · rw [hw] at h
      cases h
      exact .inr ⟨by simpa using hi, w, rfl, rfl⟩

theorem does_pendTest (ht : s.sem.waiters.phase t = .out ∨ s.sem.waiters.phase t = .woken) :
    Does s e (s.pended t (s.sem.pendTest t)) := by
  unfold Sem.pendTest
  dsimp only
  split_ifs with h1 h2
  · exact .park t ht h1.1 ((Int32.lt_one_iff _).1 h1.2) rfl rfl rfl rfl
  · exact .fails t ht (fun hi => absurd (hi.symm.trans h2) (by simp)) rfl rfl rfl rfl
  · have hi : s.sem.init = true := by simpa using h2
    refine .acquire t ht hi ?_ rfl rfl rfl rfl
    have := (Int32.lt_one_iff _).not.1 fun hlt => h1 ⟨hi, hlt⟩
    omega

theorem does_step (h : s.step e = some s') : Does s e s' := by
  have hfails : ∀ {t r}, s.Free t → Does s e (s.returns t r) := by
    intro t r ht
    refine .fails t (.inl ht.1) (fun _ => ht.1) ?_ rfl rfl rfl
    rw [Waiters.leave_of_out ht.1]
    rfl
  cases e with
  | pend t =>
    simp only [step] at h
    split_ifs at h with ht
    cases h
    unfold Sem.semPend
    split_ifs with hi
    · exact hfails ht
    · exact does_pendTest (.inl ht.1)
  | retest t =>
    simp only [step] at h
    split_ifs at h with ht
    cases h
    exact does_pendTest (.inr ht)
  | tryPend t =>
    simp only [step] at h
    split_ifs at h with ht
    cases h
    unfold Sem.semTryPend
    split_ifs with hi hl
    · exact hfails ht
    · exact hfails ht
    · refine .acquire t (.inl ht.1) (by simpa using hi) ?_ ?_ rfl rfl rfl
      · have := (Int32.lt_one_iff _).not.1 hl
        omega
      · rw [Waiters.leave_of_out ht.1]
        rfl
  | post t =>
    simp only [step] at h
    split_ifs at h with ht
    cases h
    unfold Sem.semPost
    dsimp only
    split_ifs with hi hl
    · exact hfails ht
    · have hi' : s.sem.init = true := by simpa using hi
      split
      · rename_i hq
        exact .post t rfl hi' rfl (.inr (List.getLast?_eq_none_iff.1 hq)) rfl rfl rfl
      · rename_i x hx
        exact .pop t x rfl ht.2 hi' hx rfl rfl rfl rfl
    · refine .post t rfl (by simpa using hi) rfl (.inl ?_) rfl rfl rfl
      have := (Int32.pos_iff _).not.1 hl
      show (s.sem.level + 1).toInt ≤ 0
      omega
  | unlock t =>
    simp only [step] at h
    obtain ⟨x, hx, h⟩ := Option.bind_eq_some_iff.1 h
    obtain ⟨m, hm, rfl⟩ := Option.map_eq_some_iff.1 h
    exact .unlock t x hx (unlockThread_ok hm) rfl rfl rfl
  | destroy t =>
    simp only [step] at h
    split_ifs at h with ht
    obtain ⟨p, hp, rfl⟩ := Option.map_eq_some_iff.1 h
    obtain ⟨hi, rfl⟩ | ⟨hi, w, hw, rfl⟩ := semDestroy_cases hp
    · exact hfails ht
    · exact .destroy hi w hw rfl rfl rfl rfl

/-! ## Conservation -/

/-- The increment of a `sem_post` does not overflow. -/
def NoOverflow (s : SemSys τ) : SemEv τ → Prop
  | .post _ => s.sem.init = true → s.sem.level.toInt < 2 ^ 31 - 1
  | _ => True

instance (s : SemSys τ) : ∀ e, Decidable (s.NoOverflow e)
  | .post _ => inferInstanceAs (Decidable (_ → _))
  | .pend _ | .retest _ | .tryPend _ | .unlock _ | .destroy _ => instDecidableTrue

/-- The level is what was posted and not acquired, and an acquisition finds it above zero. -/
theorem run_level (initLevel : Int32) (h : Reach step NoOverflow (start initLevel) s) :
    s.sem.level.toInt = initLevel.toInt + s.posted - s.acquired
      ∧ ∀ e s', s.step e = some s' → s'.acquired ≠ s.acquired → 1 ≤ s.sem.level.toInt := by
  constructor
  · refine h.invariant (P := fun s : SemSys τ =>
      s.sem.level.toInt = initLevel.toInt + s.posted - s.acquired) (by simp [start, Sem.semInit]) ?_
    intro s e s' hinv hok hs
    cases does_step hs with
    | acquire t ht hi hl hm hu hp ha =>
      rw [hm, hp, ha, Int32.toInt_sub_one hl]
      push_cast
      omega
    | park t ht hi hl hm hu hp ha | fails t ht hf hm hu hp ha | unlock t x ht hm hu hp ha
    | destroy hi w hw hm hu hp ha =>
      rw [hm, hp, ha]
      exact hinv
    | post t he hi hm hq hu hp ha | pop t x he ht hi hx hm hu hp ha =>
      subst he
      rw [hm, hp, ha, Int32.toInt_add_one (hok hi)]
      push_cast
      omega

  · intro e s' hs hne
    cases does_step hs with
    | acquire t ht hi hl => exact hl
    | park t ht hi hl hm hu hp ha | fails t ht hf hm hu hp ha | unlock t x ht hm hu hp ha
    | post t he hi hm hq hu hp ha | pop t x he ht hi hx hm hu hp ha | destroy hi w hw hm hu hp ha =>
      exact absurd ha hne

/-- Below zero, two posts wake up a thread and another takes the token before it looks again. -/
theorem run_level_barging : ∃ s : SemSys (Fin 3), Reach step NoOverflow (start (-1)) s
    ∧ s.posted = 2 ∧ s.acquired = 1 ∧ s.sem.waiters.queue = [0]
    ∧ s.sem.level.toInt = (-1 : Int32).toInt + s.posted - s.acquired := by
  have hrun : ((runEvents (guarded step NoOverflow) (start (-1) : SemSys (Fin 3))
      [.pend 0, .post 1, .post 1, .tryPend 2, .unlock 1, .retest 0]).map fun s =>
      (s.posted, s.acquired, s.sem.waiters.queue)) = some (2, 1, [0]) := by decide +kernel
  obtain ⟨s, h, hs⟩ := Option.map_eq_some_iff.1 hrun
  simp only [Prod.mk.injEq] at hs
  exact ⟨s, .of_run h, hs.1, hs.2.1, hs.2.2, (run_level (-1) (.of_run h)).1⟩

/-! ## Waiting threads -/

/-- The popped threads are served, and nobody waits in the queue of a semaphore that is destroyed.
-/
structure Inv (s : SemSys τ) : Prop where
  served : s.sem.waiters.Served s.unlocks
  destroyed : s.sem.init = false → s.sem.waiters.queue = []

omit [DecidableEq τ] in
theorem Inv.start (initLevel : Int32) : (start initLevel : SemSys τ).Inv :=
  ⟨Waiters.served_empty, fun _ => rfl⟩

theorem Inv.step (h : s.Inv) (hs : s.step e = some s') : s'.Inv := by
  cases does_step hs with
  | acquire t ht hi hl hm hu | fails t ht hf hm hu =>
    refine ⟨?_, fun hi => ?_⟩
    · rw [hm, hu]
      exact h.served.leave ht
    · rw [hm] at hi ⊢
      exact h.destroyed hi
  | park t ht hi hl hm hu =>
    refine ⟨?_, fun hf => ?_⟩
    · rw [hm, hu]
      exact h.served.park ht
    · rw [hm] at hf
      exact absurd (hi.symm.trans hf) (by simp)
  | post t he hi hm hq hu =>
    refine ⟨?_, ?_⟩
    · rw [hm, hu]
      exact h.served
    · rw [hm]
      exact h.destroyed
  | pop t x he ht hi hx hm hu =>
    refine ⟨?_, fun hf => ?_⟩
    · rw [hm, hu]
      exact h.served.pop ht hx
    · rw [hm] at hf
      exact absurd (hi.symm.trans hf) (by simp)
  | unlock t x ht hm hu =>
    refine ⟨?_, ?_⟩
    · rw [hm, hu]
      exact h.served.wake ht
    · rw [hm]
      exact h.destroyed
  | destroy hi w hw hm hu =>
    obtain ⟨h1, h2⟩ := h.served.wakeAll hw
    refine ⟨?_, fun _ => ?_⟩
    · rw [hm, hu]
      exact h1
    · rw [hm]
      exact h2

theorem inv_of_reach {ok : SemSys τ → SemEv τ → Prop} {initLevel : Int32}
    (h : Reach SemSys.step ok (SemSys.start initLevel) s) : s.Inv :=
  h.invariant (P := Inv) (.start initLevel) fun _ _ _ hi _ hs => hi.step hs

/-! ## No lost wakeup -/

section Due

variable [Fintype τ]

/-- While threads wait, those due are enough for the level. -/
def DueEnough (s : SemSys τ) : Prop :=
  s.sem.init = true → s.sem.waiters.queue ≠ [] → s.sem.level.toInt ≤ s.sem.waiters.due.card

theorem Inv.dueEnough_step (h : s.Inv) (hd : s.DueEnough) (hs : s.step e = some s') :
    s'.DueEnough := by
  have hnotDue : ∀ {t}, s.sem.waiters.phase t = .out → t ∉ s.sem.waiters.due := by
    intro t ht
    rw [Waiters.mem_due, ht]
    simp
  cases does_step hs with
  | acquire t ht hi hl hm =>
    rw [DueEnough, hm]
    intro _ hq
    show (s.sem.level - 1).toInt ≤ _
    rw [Int32.toInt_sub_one hl, Waiters.due_leave]
    -- the thread that takes the token was due, or was not and took it from those who are
    have h1 := hd hi hq
    have h2 := Finset.pred_card_le_card_erase (s := s.sem.waiters.due) (a := t)
    omega
  | park t ht hi hl hm =>
    rw [DueEnough, hm]
    intro _ _
    show s.sem.level.toInt ≤ _
    omega
  | fails t ht hf hm =>
    rw [DueEnough, hm]
    intro hi hq
    show s.sem.level.toInt ≤ _
    rw [Waiters.due_leave, Finset.erase_eq_of_notMem (hnotDue (hf hi))]
    exact hd hi hq
  | post t he hi hm hq =>
    rw [DueEnough, hm]
    intro _ hne
    rcases hq with hq | hq
    · show (s.sem.level + 1).toInt ≤ _
      omega
    · exact absurd hq hne
  | pop t x he ht hi hx hm =>
    rw [DueEnough, hm]
    intro _ _
    show (s.sem.level + 1).toInt ≤ _
    have hpark := h.served.wf.parked_of_getLast hx
    have hnot : x ∉ s.sem.waiters.due := by
      rw [Waiters.mem_due, hpark]
      simp
    have hne : s.sem.waiters.queue ≠ [] := by
      intro hq
      rw [hq] at hx
      cases hx
    have h1 := hd hi hne
    have h2 := Int32.toInt_add_one_le s.sem.level
    rw [Waiters.due_pop, Finset.card_insert_of_notMem hnot]
    push_cast
    omega
  | unlock t x ht hm =>
    rw [DueEnough, hm]
    intro hi hq
    have h1 := hd hi hq
    have h2 : s.sem.waiters.due.card ≤ (insert x s.sem.waiters.due).card :=
      Finset.card_le_card (Finset.subset_insert _ _)
    show s.sem.level.toInt ≤ _
    rw [Waiters.due_wake]
    omega
  | destroy hi w hw hm =>
    intro hf
    rw [hm] at hf
    cases hf

/-- A token that nobody has taken while threads wait is matched by a thread popped that is still to
look at the level. -/
theorem run_dueEnough (initLevel : Int32) (h : Reach step anyStep (start initLevel) s)
    (hi : s.sem.init = true) (hq : s.sem.waiters.queue ≠ []) :
    s.sem.level.toInt ≤ s.sem.waiters.due.card := by
  have hinv : s.Inv ∧ s.DueEnough := by
    refine h.invariant (P := fun s : SemSys τ => s.Inv ∧ s.DueEnough)
      ⟨.start initLevel, fun _ hq => absurd rfl hq⟩ ?_
    intro s e s' hinv _ hs
    exact ⟨hinv.1.step hs, hinv.1.dueEnough_step hinv.2 hs⟩
  exact hinv.2 hi hq

/-- Two posts before any thread that they popped looks again, and a third thread still waits. -/
theorem run_dueEnough_two_posts : ∃ s : SemSys (Fin 4), Reach step anyStep (start 0) s
    ∧ s.sem.waiters.queue = [2] ∧ s.sem.level.toInt = 2
    ∧ s.sem.level.toInt ≤ s.sem.waiters.due.card := by
  have hrun : ((runEvents (guarded step anyStep) (start 0 : SemSys (Fin 4))
      [.pend 0, .pend 1, .pend 2, .post 3, .unlock 3, .post 3]).map fun s =>
      (s.sem.waiters.queue, s.sem.level.toInt, s.sem.init)) = some ([2], 2, true) := by
    decide +kernel
  obtain ⟨s, h, hs⟩ := Option.map_eq_some_iff.1 hrun
  simp only [Prod.mk.injEq] at hs
  have hq : s.sem.waiters.queue ≠ [] := by
    rw [hs.1]
    simp
  exact ⟨s, .of_run h, hs.1, hs.2.1, run_dueEnough 0 (.of_run h) hs.2.2 hq⟩

end Due

end SemSys

end RTLKIM

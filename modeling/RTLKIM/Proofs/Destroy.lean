import RTLKIM.Proofs.Mutex
import RTLKIM.Proofs.Semaphore

/-!
# Destroyed semaphores and mutexes

`sem_destroy` and `mutex_destroy` wake up every thread of the queue. From then on nobody waits but a
thread that a post has popped and is to wake up, and every section returns the code of an object
that is not initialised.
-/

namespace RTLKIM

variable {τ : Type} [DecidableEq τ]

/-- Every parked thread has been woken up, and no other thread has moved. -/
def Waiters.WokeAll (w w' : Waiters τ) : Prop :=
  w'.queue = [] ∧ ∀ x, w'.phase x = if w.phase x = .parked then .woken else w.phase x

omit [DecidableEq τ] in
theorem Waiters.Wf.not_parked_of_nil {w : Waiters τ} (h : w.Wf) (hq : w.queue = []) (x : τ) :
    w.phase x ≠ .parked := by
  intro hx
  have := (h.mem x).2 hx
  rw [hq] at this
  cases this

/-! ## Semaphores -/

namespace SemSys

variable {s s' : SemSys τ} {e : SemEv τ} {t : τ}

/-- The thread calls a function, or goes on in its `sem_pend`. -/
def Calls (s : SemSys τ) (t : τ) (e : SemEv τ) : Prop :=
  (e = .pend t ∨ e = .tryPend t ∨ e = .post t) ∧ s.Free t
    ∨ e = .retest t ∧ s.sem.waiters.phase t = .woken

/-- What holds of a semaphore that is destroyed. -/
structure Dead (s : SemSys τ) : Prop where
  queue : s.sem.waiters.queue = []
  parked : ∀ x, s.sem.waiters.phase x ≠ .parked
  popped : ∀ x, s.sem.waiters.phase x = .popped → ∃ t s', s.unlocks t = some x
    ∧ s.step (.unlock t) = some s' ∧ s'.sem.waiters.phase x = .woken
  calls : ∀ t e, s.Calls t e → ∃ s', s.step e = some s' ∧ s'.sem.waiters.phase t = .out
    ∧ s'.ret t = some ⟨.semUninitialized, none⟩
  keeps : ∀ e s', s.step e = some s' → s'.sem.init = false ∧ s'.sem.level = s.sem.level
    ∧ s'.acquired = s.acquired

/-- A `sem_destroy` wakes up all who wait, and leaves a semaphore that is destroyed. -/
structure DestroyWakes (s : SemSys τ) : Prop where
  wakes : s.sem.init = true → ∀ t, s.Free t → ∃ s', s.step (.destroy t) = some s'
    ∧ s'.sem.init = false ∧ s.sem.waiters.WokeAll s'.sem.waiters ∧ s'.ret t = some ⟨.noErr, none⟩
  dead : s.sem.init = false → s.Dead

theorem Inv.wakes (h : s.Inv) (hi : s.sem.init = true) (ht : s.Free t) :
    ∃ s', s.step (.destroy t) = some s' ∧ s'.sem.init = false
      ∧ s.sem.waiters.WokeAll s'.sem.waiters ∧ s'.ret t = some ⟨.noErr, none⟩ := by
  obtain ⟨w, hw, hq, hph⟩ := Waiters.wakeAll_ok h.served.wf rfl
  refine ⟨{ s with sem := { s.sem with init := false, waiters := w } }.returns t ⟨.noErr, none⟩, ?_,
    rfl, ⟨hq, hph⟩, Function.update_self _ _ _⟩
  have hi' : ¬ s.sem.init = false := by
    rw [hi]
    simp
  simp only [SemSys.step]
  unfold Sem.semDestroy Sem.unlockAll
  rw [if_pos ht, if_neg hi']
  dsimp only
  rw [hw]
  rfl

theorem pendTest_dead (hi : s.sem.init = false) : s.pended t (s.sem.pendTest t)
    = { s with sem := { s.sem with waiters := s.sem.waiters.leave t } }.returns t
      ⟨.semUninitialized, none⟩ := by
  have hi' : ¬ (s.sem.init = true ∧ s.sem.level < 1) := by
    rw [hi]
    simp
  unfold Sem.pendTest
  rw [if_neg hi', if_pos hi]
  rfl

theorem calls_dead (hi : s.sem.init = false) (hc : s.Calls t e) :
    ∃ s', s.step e = some s' ∧ s'.sem.waiters.phase t = .out
      ∧ s'.ret t = some ⟨.semUninitialized, none⟩ := by
  have hret : (s.returns t ⟨.semUninitialized, none⟩).ret t = some ⟨.semUninitialized, none⟩ :=
    Function.update_self _ _ _
  rcases hc with ⟨he, ht⟩ | ⟨rfl, ht⟩
  · refine ⟨s.returns t ⟨.semUninitialized, none⟩, ?_, ht.1, hret⟩
    rcases he with rfl | rfl | rfl <;> simp only [SemSys.step]
    · rw [if_pos ht, Sem.semPend, if_pos hi]
      rfl
    · rw [if_pos ht, Sem.semTryPend, if_pos hi]
      rfl
    · rw [if_pos ht, Sem.semPost, if_pos hi]
      rfl
  · refine ⟨{ s with sem := { s.sem with waiters := s.sem.waiters.leave t } }.returns t
      ⟨.semUninitialized, none⟩, ?_, Function.update_self _ _ _, Function.update_self _ _ _⟩
    simp only [SemSys.step]
    rw [if_pos ht, pendTest_dead hi]

theorem keeps_dead (hi : s.sem.init = false) (hs : s.step e = some s') :
    s'.sem.init = false ∧ s'.sem.level = s.sem.level ∧ s'.acquired = s.acquired := by
  have hno : s.sem.init ≠ true := by
    rw [hi]
    simp
  cases does_step hs with
  | acquire t ht hi' | park t ht hi' | post t he hi' | pop t x he ht hi' | destroy hi' =>
    exact absurd hi' hno
  | fails t ht hf hm hu hp ha | unlock t x ht hm hu hp ha =>
    rw [hm]
    exact ⟨hi, rfl, ha⟩

theorem Inv.dead (h : s.Inv) (hi : s.sem.init = false) : s.Dead := by
  have hq := h.destroyed hi
  refine ⟨hq, h.served.wf.not_parked_of_nil hq, fun x hx => ?_, fun t e => calls_dead hi,
    fun e s' => keeps_dead hi⟩
  obtain ⟨t, ht⟩ := h.served.popped x hx
  refine ⟨t, { s with
    sem := { s.sem with waiters := s.sem.waiters.wake x }
    unlocks := Function.update s.unlocks t none }.returns t ⟨.noErr, none⟩, ht, ?_,
    Function.update_self _ _ _⟩
  simp only [SemSys.step]
  rw [ht]
  dsimp only [Option.bind_some]
  unfold Sem.unlockThread
  rw [Waiters.wakeWaiting_popped hx]
  rfl

end SemSys

/-! ## Mutexes -/

namespace MutexSys

variable {tid : τ → Int32} {s s' : MutexSys τ} {e : MutexEv τ} {t : τ}

/-- The thread calls a function, or goes on in its `mutex_pend`. -/
def Calls (s : MutexSys τ) (t : τ) (e : MutexEv τ) : Prop :=
  (e = .pend t ∨ e = .tryPend t ∨ e = .post t) ∧ s.Free t
    ∨ e = .retest t ∧ s.mutex.waiters.phase t = .woken

/-- What holds of a mutex that is destroyed. -/
structure Dead (tid : τ → Int32) (s : MutexSys τ) : Prop where
  queue : s.mutex.waiters.queue = []
  parked : ∀ x, s.mutex.waiters.phase x ≠ .parked
  popped : ∀ x, s.mutex.waiters.phase x = .popped → ∃ t s', s.unlocks t = some x
    ∧ s.step tid (.unlock t) = some s' ∧ s'.mutex.waiters.phase x = .woken
  calls : ∀ t e, s.Calls t e → ∃ s', s.step tid e = some s' ∧ s'.mutex.waiters.phase t = .out
    ∧ s'.ret t = some ⟨.mutexUninitialized, none⟩
  keeps : ∀ e s', s.step tid e = some s' → s'.mutex.init = false
    ∧ s'.mutex.state = s.mutex.state ∧ s'.mutex.lockerTid = s.mutex.lockerTid ∧ s'.depth = s.depth

/-- A `mutex_destroy` wakes up all who wait, and leaves a mutex that is destroyed. -/
structure DestroyWakes (tid : τ → Int32) (s : MutexSys τ) : Prop where
  wakes : s.mutex.init = true → ∀ t, s.Free t → ∃ s', s.step tid (.destroy t) = some s'
    ∧ s'.mutex.init = false ∧ s.mutex.waiters.WokeAll s'.mutex.waiters
    ∧ s'.ret t = some ⟨.noErr, none⟩
  dead : s.mutex.init = false → s.Dead tid

theorem Inv.wakes (h : s.Inv) (hi : s.mutex.init = true) (ht : s.Free t) :
    ∃ s', s.step tid (.destroy t) = some s' ∧ s'.mutex.init = false
      ∧ s.mutex.waiters.WokeAll s'.mutex.waiters ∧ s'.ret t = some ⟨.noErr, none⟩ := by
  obtain ⟨w, hw, hq, hph⟩ := Waiters.wakeAll_ok h.served.wf rfl
  refine ⟨{ s with mutex := { s.mutex with init := false, waiters := w } }.returns t ⟨.noErr, none⟩,
    ?_, rfl, ⟨hq, hph⟩, Function.update_self _ _ _⟩
  have hi' : ¬ s.mutex.init = false := by
    rw [hi]
    simp
  simp only [MutexSys.step]
  unfold Mutex.mutexDestroy Mutex.unlockAll
  rw [if_pos ht, if_neg hi', hw]
  rfl

theorem pendTest_dead (hi : s.mutex.init = false) (k : UInt32) (r : Int32) :
    (s.mutex.pendTest t r k).toOption.map (s.pended t)
    = some ({ s with mutex := { s.mutex with waiters := s.mutex.waiters.leave t } }.returns t
      ⟨.mutexUninitialized, none⟩) := by
  have hi' : ¬ (s.mutex.init = true ∧ s.mutex.state ≠ 1 ∧ ¬ s.mutex.Reentrant r) := by
    rw [hi]
    simp
  unfold Mutex.pendTest
  rw [if_neg hi', if_pos hi]
  rfl

theorem calls_dead (hi : s.mutex.init = false) (hc : s.Calls t e) :
    ∃ s', s.step tid e = some s' ∧ s'.mutex.waiters.phase t = .out
      ∧ s'.ret t = some ⟨.mutexUninitialized, none⟩ := by
  have hret : (s.returns t ⟨.mutexUninitialized, none⟩).ret t = some ⟨.mutexUninitialized, none⟩ :=
    Function.update_self _ _ _
  rcases hc with ⟨he, ht⟩ | ⟨rfl, ht⟩
  · refine ⟨s.returns t ⟨.mutexUninitialized, none⟩, ?_, ht.1, hret⟩
    rcases he with rfl | rfl | rfl <;> simp only [MutexSys.step]
    · rw [if_pos ht, Mutex.mutexPend, if_pos hi]
      rfl
    · rw [if_pos ht, Mutex.mutexTryPend, if_pos hi]
      rfl
    · rw [if_pos ht, Mutex.mutexPost, if_pos hi]
      rfl
  · refine ⟨{ s with mutex := { s.mutex with waiters := s.mutex.waiters.leave t } }.returns t
      ⟨.mutexUninitialized, none⟩, ?_, Function.update_self _ _ _, Function.update_self _ _ _⟩
    simp only [MutexSys.step]
    rw [if_pos ht, pendTest_dead hi]

theorem keeps_dead (hi : s.mutex.init = false) (hs : s.step tid e = some s') :
    s'.mutex.init = false ∧ s'.mutex.state = s.mutex.state
      ∧ s'.mutex.lockerTid = s.mutex.lockerTid ∧ s'.depth = s.depth := by
  have hno : s.mutex.init ≠ true := by
    rw [hi]
    simp
  cases does_step hs with
  | acquire t he ht hi' | tryAcquire t ht hi' | park t ht hi' | post t he hi' | pop t x he ht hi'
  | destroy t he hi' => exact absurd hi' hno
  | fails t ht hf hm hu hd | unlock t x ht hm hu hd =>
    rw [hm]
    exact ⟨hi, rfl, rfl, hd⟩

theorem Inv.dead (h : s.Inv) (hi : s.mutex.init = false) : s.Dead tid := by
  have hq := h.destroyed hi
  refine ⟨hq, h.served.wf.not_parked_of_nil hq, fun x hx => ?_, fun t e => calls_dead hi,
    fun e s' => keeps_dead hi⟩
  obtain ⟨t, ht⟩ := h.served.popped x hx
  refine ⟨t, { s with
    mutex := { s.mutex with waiters := s.mutex.waiters.wake x }
    unlocks := Function.update s.unlocks t none }.returns t ⟨.noErr, none⟩, ht, ?_,
    Function.update_self _ _ _⟩
  simp only [MutexSys.step]
  rw [ht]
  dsimp only [Option.bind_some]
  unfold Mutex.unlockThread
  rw [Waiters.wakeWaiting_popped hx]
  rfl

end MutexSys

/-! ## Runs -/

/-- Destroying a semaphore or a mutex wakes up everyone, whatever the threads do before and after.
-/
theorem run_destroyWakes {s : SemSys τ} {r : MutexSys τ} (initLevel : Int32) {tid : τ → Int32}
    {flags : UInt32} {priority : UInt16} {m : Mutex τ} {f : τ → UInt32}
    (hm : Mutex.mutexInit flags priority = .ok m)
    (hs : Reach SemSys.step anyStep (.start initLevel) s)
    (hr : Reach (MutexSys.step tid) anyStep (.start m f) r) :
    s.DestroyWakes ∧ r.DestroyWakes tid := by
  have his := SemSys.inv_of_reach hs
  have hir : r.Inv := by
    refine hr.invariant (P := MutexSys.Inv) ?_ fun _ _ _ hi _ hs => hi.step hs
    rw [MutexSys.eq_of_init hm]
    exact ⟨Waiters.served_empty, fun _ => rfl⟩
  exact ⟨⟨fun hi _ ht => his.wakes hi ht, his.dead⟩, ⟨fun hi _ ht => hir.wakes hi ht, hir.dead⟩⟩

/-- Both destroyed between the pop of a post and its unlock, with a thread in the queue. -/
theorem run_destroyWakes_popped : ∃ (s : SemSys (Fin 4)) (r : MutexSys (Fin 4)),
    s.sem.waiters.phase 0 = .popped ∧ s.sem.waiters.phase 1 = .woken
    ∧ r.mutex.waiters.phase 0 = .popped ∧ r.mutex.waiters.phase 1 = .woken
    ∧ s.Dead ∧ r.Dead MutexSys.tids := by
  have hsem : ((runEvents (guarded SemSys.step anyStep) (SemSys.start 0 : SemSys (Fin 4))
      [.pend 0, .pend 1, .post 2, .destroy 3]).map fun s =>
      (s.sem.waiters.phase 0, s.sem.waiters.phase 1, s.sem.init)) = some (.popped, .woken, false) := by
    decide +kernel
  have hmutex : ((runEvents (guarded (MutexSys.step MutexSys.tids) anyStep)
      (MutexSys.start (MutexSys.noElevation 0 4) fun _ => 10)
      [.pend 2, .pend 0, .pend 1, .post 2, .destroy 3]).map fun s =>
      (s.mutex.waiters.phase 0, s.mutex.waiters.phase 1, s.mutex.init))
      = some (.popped, .woken, false) := by
    decide +kernel
  obtain ⟨s, h1, hs⟩ := Option.map_eq_some_iff.1 hsem
  obtain ⟨r, h2, hr⟩ := Option.map_eq_some_iff.1 hmutex
  simp only [Prod.mk.injEq] at hs hr
  obtain ⟨d1, d2⟩ := run_destroyWakes 0 (MutexSys.init_noElevation 0 4) (.of_run h1) (.of_run h2)
  exact ⟨s, r, hs.1, hs.2.1, hr.1, hr.2.1, d1.dead hs.2.2, d2.dead hr.2.2⟩

end RTLKIM

import Mathlib.Data.Fintype.Basic
import RTLKIM.Mutex
import RTLKIM.Lib.Run

/-!
# What mutexes keep

`Does` lists what a step can do to the mutex. A mutex that is not recursive has one holder and
strands no waiter.
-/

namespace RTLKIM

/-! ## The flags -/

namespace Mutex

variable {τ : Type} {m : Mutex τ} {flags : UInt32} {elevation : UInt16}

theorem prio_toNat (hf : m.flags = flags ||| elevation.toUInt32 <<< 8) :
    m.prio.toNat = (flags.toNat >>> 8 ||| elevation.toNat) % 2 ^ 16 := by
  unfold prio mutexPriorityElevationNone
  rw [hf]
  apply Nat.eq_of_testBit_eq
  intro k
  rw [UInt32.toNat_and, UInt32.toNat_shiftRight, UInt32.toNat_or, UInt32.toNat_shiftLeft]
  simp only [UInt32.toNat_ofNat, UInt16.toNat_toUInt32]
  rw [show 65535 % 2 ^ 32 = 2 ^ 16 - 1 from rfl, show 8 % 2 ^ 32 % 32 = 8 from rfl]
  simp only [Nat.testBit_and, Nat.testBit_two_pow_sub_one, Nat.testBit_shiftRight, Nat.testBit_or,
    Nat.testBit_mod_two_pow, Nat.testBit_shiftLeft]
  by_cases hk : k < 16
  · have hk' : 8 + k < 32 := by omega
    simp [hk, hk']
  · simp [hk]

theorem prio_none (hf : m.flags = flags ||| elevation.toUInt32 <<< 8)
    (he : elevation.toUInt32 = mutexPriorityElevationNone) : m.prio = mutexPriorityElevationNone := by
  apply UInt32.toNat_inj.1
  have he' : elevation.toNat = 2 ^ 16 - 1 := by
    rw [← UInt16.toNat_toUInt32, he]
    rfl
  rw [prio_toNat hf, ← he, UInt16.toNat_toUInt32, he']
  apply Nat.eq_of_testBit_eq
  intro k
  simp only [Nat.testBit_mod_two_pow, Nat.testBit_or, Nat.testBit_two_pow_sub_one]
  by_cases hk : k < 16
  · simp [hk]
  · simp [hk]

/-- What `mutex_pend` sets comes from above the field of the priority. -/
theorem prio_shiftRight (hf : m.flags = flags ||| elevation.toUInt32 <<< 8)
    (he : elevation.toNat ≤ kernelLowestPriority) : m.prio >>> 8 = flags >>> 16 &&& 0xFF := by
  apply UInt32.toNat_inj.1
  rw [UInt32.toNat_shiftRight, prio_toNat hf, UInt32.toNat_and, UInt32.toNat_shiftRight]
  apply Nat.eq_of_testBit_eq
  intro k
  simp only [UInt32.toNat_ofNat]
  rw [show 255 % 2 ^ 32 = 2 ^ 8 - 1 from rfl, show 8 % 2 ^ 32 % 32 = 8 from rfl,
    show 16 % 2 ^ 32 % 32 = 16 from rfl]
  simp only [Nat.testBit_and, Nat.testBit_two_pow_sub_one, Nat.testBit_shiftRight, Nat.testBit_or,
    Nat.testBit_mod_two_pow]
  have hbit : elevation.toNat.testBit (8 + k) = false := by
    apply Nat.testBit_lt_two_pow
    have : (2 : ℕ) ^ 8 ≤ 2 ^ (8 + k) := Nat.pow_le_pow_right (by omega) (by omega)
    have hlow : kernelLowestPriority = 63 := rfl
    omega
  rw [hbit, Bool.or_false, ← Nat.add_assoc]
  by_cases hk : k < 8
  · have hk' : 8 + k < 16 := by omega
    simp [hk, hk']
  · have hk' : ¬ 8 + k < 16 := by omega
    simp [hk, hk']

end Mutex

variable {τ : Type} [DecidableEq τ]

namespace MutexSys

variable {tid : τ → Int32} {s s' : MutexSys τ} {e : MutexEv τ} {t x : τ}

/-- What a step does. -/
inductive Does (tid : τ → Int32) (s : MutexSys τ) (e : MutexEv τ) (s' : MutexSys τ) : Prop
  | acquire (t : τ) (he : e = .pend t ∨ e = .retest t)
      (ht : s.mutex.waiters.phase t = .out ∨ s.mutex.waiters.phase t = .woken)
      (hi : s.mutex.init = true) (hst : s.mutex.state = 1 ∨ s.mutex.Reentrant (tid t))
      (hs : s'.mutex.state = 0) (hl : s'.mutex.lockerTid = tid t)
      (hm : s'.mutex.flags = s.mutex.flags ∧ s'.mutex.init = s.mutex.init)
      (hw : s'.mutex.waiters = s.mutex.waiters.leave t) (hu : s'.unlocks = s.unlocks)
      (hd : s'.depth = Function.update s.depth t (s.depth t + 1))
      (hp : s'.pends = Function.update s.pends t (s.pends t + 1))
  | tryAcquire (t : τ) (ht : s.mutex.waiters.phase t = .out) (hi : s.mutex.init = true)
      (hst : s.mutex.state = 1) (hm : s'.mutex = { s.mutex with state := 0 })
      (hu : s'.unlocks = s.unlocks) (hd : s'.depth = Function.update s.depth t (s.depth t + 1))
      (hp : s'.pends = s.pends) (he : e = .tryPend t)
  | park (t : τ) (ht : s.mutex.waiters.phase t = .out ∨ s.mutex.waiters.phase t = .woken)
      (hi : s.mutex.init = true) (hst : s.mutex.state ≠ 1)
      (hm : s'.mutex = { s.mutex with waiters := s.mutex.waiters.park t })
      (hu : s'.unlocks = s.unlocks) (hd : s'.depth = s.depth) (hp : s'.pends = s.pends)
  | fails (t : τ) (ht : s.mutex.waiters.phase t = .out ∨ s.mutex.waiters.phase t = .woken)
      (hf : s.mutex.init = true → s.mutex.waiters.phase t = .out)
      (hm : s'.mutex = { s.mutex with waiters := s.mutex.waiters.leave t })
      (hu : s'.unlocks = s.unlocks) (hd : s'.depth = s.depth) (hp : s'.pends = s.pends)
  | post (t : τ) (he : e = .post t) (hi : s.mutex.init = true) (hs : s'.mutex.state = 1)
      (hm : s'.mutex.flags = s.mutex.flags ∧ s'.mutex.init = s.mutex.init)
      (hw : s'.mutex.waiters = s.mutex.waiters) (hq : s.mutex.waiters.queue = [])
      (hu : s'.unlocks = s.unlocks)
      (hd : s'.depth = Function.update s.depth t (s.depth t - 1))
      (hp : s'.pends = Function.update s.pends t (s.pends t - 1))
  | pop (t x : τ) (he : e = .post t) (ht : s.unlocks t = none) (hi : s.mutex.init = true)
      (hx : s.mutex.waiters.queue.getLast? = some x) (hs : s'.mutex.state = 1)
      (hm : s'.mutex.flags = s.mutex.flags ∧ s'.mutex.init = s.mutex.init)
      (hw : s'.mutex.waiters = s.mutex.waiters.pop x)
      (hu : s'.unlocks = Function.update s.unlocks t (some x))
      (hd : s'.depth = Function.update s.depth t (s.depth t - 1))
      (hp : s'.pends = Function.update s.pends t (s.pends t - 1))
  | unlock (t x : τ) (ht : s.unlocks t = some x)
      (hm : s'.mutex = { s.mutex with waiters := s.mutex.waiters.wake x })
      (hu : s'.unlocks = Function.update s.unlocks t none) (hd : s'.depth = s.depth)
      (hp : s'.pends = s.pends)
  | destroy (t : τ) (he : e = .destroy t) (hi : s.mutex.init = true) (w : Waiters τ)
      (hw : Waiters.wakeAll s.mutex.waiters.queue.reverse s.mutex.waiters = some w)
      (hm : s'.mutex = { s.mutex with init := false, waiters := w })
      (hu : s'.unlocks = s.unlocks) (hd : s'.depth = s.depth) (hp : s'.pends = s.pends)

omit [DecidableEq τ] in
theorem elevate_ok {m : Mutex τ} {k : UInt32} {p : UInt32 × Mutex τ}
    (h : (m.elevate k).toOption = some p) : ∃ a, p.2 = { m with acquiredThreadPriority := a } := by
  unfold Mutex.elevate schedSetPriority at h
  split_ifs at h
  · cases h
  · cases h
    exact ⟨_, rfl⟩
  · cases h
    exact ⟨_, rfl⟩

omit [DecidableEq τ] in
theorem restore_ok {m : Mutex τ} {k : UInt32} {p : UInt32 × Mutex τ}
    (h : (m.restore k).toOption = some p) : ∃ a, p.2 = { m with acquiredThreadPriority := a } := by
  unfold Mutex.restore schedSetPriority at h
  split_ifs at h
  · cases h
  · cases h
    exact ⟨_, rfl⟩
  · cases h
    exact ⟨_, rfl⟩

theorem unlockThread_ok {m m' : Mutex τ} (h : (m.unlockThread x).toOption = some m') :
    m' = { m with waiters := m.waiters.wake x } := by
  unfold Mutex.unlockThread at h
  rcases hw : m.waiters.wakeWaiting x with _ | w
  · rw [hw] at h
    cases h
  · rw [hw] at h
    cases h
    rw [Waiters.wakeWaiting_ok hw]

/-- `mutex_destroy` changes nothing, or wakes up the whole queue. -/
theorem mutexDestroy_ok {m : Mutex τ} {p : MutexErr × Mutex τ}
    (h : m.mutexDestroy.toOption = some p) :
    (m.init = false ∧ p = (.mutexUninitialized, m))
      ∨ m.init = true ∧ ∃ w, Waiters.wakeAll m.waiters.queue.reverse m.waiters = some w
        ∧ p = (.noErr, { m with init := false, waiters := w }) := by
  unfold Mutex.mutexDestroy at h
  split_ifs at h with hi
  · cases h
    exact .inl ⟨hi, rfl⟩
  · unfold Mutex.unlockAll at h
    rcases hw : Waiters.wakeAll m.waiters.queue.reverse m.waiters with _ | w
    · rw [hw] at h
      cases h
    · rw [hw] at h
      cases h
      exact .inr ⟨by simpa using hi, w, rfl, rfl⟩

theorem toOption_map {ε α β : Type*} (x : Except ε α) (f : α → β) :
    (x.map f).toOption = x.toOption.map f := by
  cases x <;> rfl

theorem does_pendTest (he : e = .pend t ∨ e = .retest t)
    (ht : s.mutex.waiters.phase t = .out ∨ s.mutex.waiters.phase t = .woken)
    (h : (s.mutex.pendTest t (tid t) (s.priority t)).toOption.map (s.pended t) = some s') :
    Does tid s e s' := by
  unfold Mutex.pendTest at h
  dsimp only at h
  split_ifs at h with h1 h2
  · cases h
    exact .park t ht h1.1 h1.2.1 rfl rfl rfl rfl
  · cases h
    exact .fails t ht (fun hi => absurd (hi.symm.trans h2) (by simp)) rfl rfl rfl rfl
  · have hi : s.mutex.init = true := by simpa using h2
    rw [toOption_map, Option.map_map, Option.map_eq_some_iff] at h
    obtain ⟨p, hp, rfl⟩ := h
    obtain ⟨a, ha⟩ := elevate_ok hp
    have hst : s.mutex.state = 1 ∨ s.mutex.Reentrant (tid t) := by
      by_cases hst : s.mutex.state = 1
      · exact .inl hst
      · by_contra hr
        exact h1 ⟨hi, hst, fun hre => hr (.inr hre)⟩
    obtain ⟨k, m⟩ := p
    dsimp only at ha
    subst ha
    exact .acquire t he ht hi hst rfl rfl ⟨rfl, rfl⟩ rfl rfl rfl rfl

theorem does_step (h : s.step tid e = some s') : Does tid s e s' := by
  have hfails : ∀ {t r}, s.Free t → Does tid s e (s.returns t r) := by
    intro t r ht
    refine .fails t (.inl ht.1) (fun _ => ht.1) ?_ rfl rfl rfl
    rw [Waiters.leave_of_out ht.1]
    rfl
  cases e with
  | pend t =>
    simp only [step] at h
    split_ifs at h with ht
    unfold Mutex.mutexPend at h
    split_ifs at h with hi
    · cases h
      exact hfails ht
    · exact does_pendTest (.inl rfl) (.inl ht.1) h
  | retest t =>
    simp only [step] at h
    split_ifs at h with ht
    exact does_pendTest (.inr rfl) (.inr ht) h
  | tryPend t =>
    simp only [step] at h
    split_ifs at h with ht
    cases h
    unfold Mutex.mutexTryPend
    split_ifs with hi hst
    · exact hfails ht
    · exact hfails ht
    · exact .tryAcquire t ht.1 (by simpa using hi) (by simpa using hst) rfl rfl rfl rfl rfl
  | post t =>
    simp only [step] at h
    split_ifs at h with ht
    unfold Mutex.mutexPost at h
    split_ifs at h with hi
    · cases h
      exact hfails ht
    · have hi' : s.mutex.init = true := by simpa using hi
      rw [toOption_map, Option.map_map, Option.map_eq_some_iff] at h
      obtain ⟨⟨k, m⟩, hp, rfl⟩ := h
      obtain ⟨a, ha⟩ := restore_ok hp
      dsimp only at ha
      subst ha
      dsimp only [Function.comp]
      split
      · rename_i hq
        exact .post t rfl hi' rfl ⟨rfl, rfl⟩ rfl (List.getLast?_eq_none_iff.1 hq) rfl rfl rfl
      · rename_i x hx
        exact .pop t x rfl ht.2 hi' hx rfl ⟨rfl, rfl⟩ rfl rfl rfl rfl
  | unlock t =>
    simp only [step] at h
    obtain ⟨x, hx, h⟩ := Option.bind_eq_some_iff.1 h
    obtain ⟨m, hm, rfl⟩ := Option.map_eq_some_iff.1 h
    exact .unlock t x hx (unlockThread_ok hm) rfl rfl rfl
  | destroy t =>
    simp only [step] at h
    split_ifs at h with ht
    obtain ⟨p, hp, rfl⟩ := Option.map_eq_some_iff.1 h
    obtain ⟨hi, rfl⟩ | ⟨hi, w, hw, rfl⟩ := mutexDestroy_ok hp
    · exact hfails ht
    · exact .destroy t rfl hi w hw rfl rfl rfl rfl

theorem flags_step (h : s.step tid e = some s') : s'.mutex.flags = s.mutex.flags := by
  cases does_step h with
  | acquire t he ht hi hst hs hl hm => exact hm.1
  | tryAcquire t ht hi hst hm => rw [hm]
  | park t ht hi hst hm => rw [hm]
  | fails t ht hf hm => rw [hm]
  | post t he hi hs hm => exact hm.1
  | pop t x he ht hi hx hs hm => exact hm.1
  | unlock t x ht hm => rw [hm]
  | destroy t he hi w hw hm => rw [hm]

theorem init_step (h : s.step tid e = some s') (he : ∀ t, e ≠ .destroy t) :
    s'.mutex.init = s.mutex.init := by
  cases does_step h with
  | acquire t h1 ht hi hst hs hl hm => exact hm.2
  | tryAcquire t ht hi hst hm => rw [hm]
  | park t ht hi hst hm => rw [hm]
  | fails t ht hf hm => rw [hm]
  | post t h1 hi hs hm => exact hm.2
  | pop t x h1 ht hi hx hs hm => exact hm.2
  | unlock t x ht hm => rw [hm]
  | destroy t h1 => exact absurd h1 (he t)

/-! ## Waiting threads -/

/-- The popped threads are served, and nobody waits in the queue of a mutex that is destroyed. -/
structure Inv (s : MutexSys τ) : Prop where
  served : s.mutex.waiters.Served s.unlocks
  destroyed : s.mutex.init = false → s.mutex.waiters.queue = []

theorem Inv.step (h : s.Inv) (hs : s.step tid e = some s') : s'.Inv := by
  cases does_step hs with
  | acquire t he ht hi hst hs hl hm hw hu =>
    refine ⟨?_, fun hf => ?_⟩
    · rw [hw, hu]
      exact h.served.leave ht
    · rw [hw]
      exact h.destroyed (hm.2.symm.trans hf)
  | tryAcquire t ht hi hst hm hu =>
    refine ⟨?_, ?_⟩
    · rw [hm, hu]
      exact h.served
    · rw [hm]
      exact h.destroyed
  | park t ht hi hst hm hu =>
    refine ⟨?_, fun hf => ?_⟩
    · rw [hm, hu]
      exact h.served.park ht
    · rw [hm] at hf
      exact absurd (hi.symm.trans hf) (by simp)
  | fails t ht hf hm hu =>
    refine ⟨?_, fun hi => ?_⟩
    · rw [hm, hu]
      exact h.served.leave ht
    · rw [hm] at hi ⊢
      exact h.destroyed hi
  | post t he hi hs hm hw hq hu =>
    refine ⟨?_, fun _ => ?_⟩
    · rw [hw, hu]
      exact h.served
    · rw [hw]
      exact hq
  | pop t x he ht hi hx hs hm hw hu =>
    refine ⟨?_, fun hf => ?_⟩
    · rw [hw, hu]
      exact h.served.pop ht hx
    · rw [hm.2] at hf
      exact absurd (hi.symm.trans hf) (by simp)
  | unlock t x ht hm hu =>
    refine ⟨?_, ?_⟩
    · rw [hm, hu]
      exact h.served.wake ht
    · rw [hm]
      exact h.destroyed
  | destroy t he hi w hw hm hu =>
    obtain ⟨h1, h2⟩ := h.served.wakeAll hw
    refine ⟨?_, fun _ => ?_⟩
    · rw [hm, hu]
      exact h1
    · rw [hm]
      exact h2

/-! ## Exclusion -/

/-- Two threads never hold the mutex together. -/
def Excludes (s : MutexSys τ) : Prop := ∀ t u, s.Holds t → s.Holds u → t = u

/-- Only a thread that holds the mutex posts it. -/
def PostsHeld (s : MutexSys τ) : MutexEv τ → Prop
  | .post t => s.Holds t
  | _ => True

/-- A mutex that is free has no holder. -/
structure Excl (s : MutexSys τ) : Prop where
  free : s.mutex.state = 1 → ∀ t, ¬ s.Holds t
  excludes : s.Excludes

theorem holds_update {n : ℕ} (hd : s'.depth = Function.update s.depth t n) {u : τ}
    (hu : s'.Holds u) : u = t ∨ s.Holds u := by
  unfold Holds at hu ⊢
  rw [hd] at hu
  by_cases h : u = t
  · exact .inl h
  · rw [Function.update_of_ne h] at hu
    exact .inr hu

/-- A thread acquires the mutex that no other holds. -/
theorem Excl.acquire (hall : ∀ u, s.Holds u → u = t) (hst : s'.mutex.state ≠ 1)
    (hd : s'.depth = Function.update s.depth t (s.depth t + 1)) : s'.Excl := by
  have hone : ∀ u, s'.Holds u → u = t := fun u hu => (holds_update hd hu).elim id (hall u)
  exact ⟨fun h => absurd h hst, fun u v hu hv => (hone u hu).trans (hone v hv).symm⟩

/-- The only holder posts its only acquisition. -/
theorem Excl.post (h : s.Excl) (ht : s.depth t = 1)
    (hd : s'.depth = Function.update s.depth t (s.depth t - 1)) : s'.Excl := by
  have hnone : ∀ u, ¬ s'.Holds u := by
    intro u hu
    obtain rfl : u = t :=
      (holds_update hd hu).elim id fun hu' => h.excludes u t hu' (by unfold Holds; omega)
    unfold Holds at hu
    rw [hd, Function.update_self] at hu
    omega
  exact ⟨fun _ => hnone, fun u _ hu => absurd hu (hnone u)⟩

omit [DecidableEq τ] in
theorem Excl.congr (h : s.Excl) (hm : s'.mutex.state = s.mutex.state) (hd : s'.depth = s.depth) :
    s'.Excl := by
  have hiff : ∀ u, s'.Holds u ↔ s.Holds u := by
    intro u
    unfold Holds
    rw [hd]
  refine ⟨fun hst t ht => h.free (hm.symm.trans hst) t ((hiff t).1 ht), fun u v hu hv => ?_⟩
  exact h.excludes u v ((hiff u).1 hu) ((hiff v).1 hv)

/-- A step keeps the exclusion if a post is of the only acquisition its thread has not posted, and a
locked mutex is granted to its holder only. -/
theorem Excl.step (h : s.Excl) (hpost : ∀ t, e = .post t → s.mutex.init = true → s.depth t = 1)
    (hown : ∀ t, s.mutex.Reentrant (tid t) → ∀ u, s.Holds u → u = t)
    (hs : s.step tid e = some s') : s'.Excl := by
  cases does_step hs with
  | acquire t he ht hi hst hs hl hm hw hu hd =>
    refine .acquire (fun u hu => ?_) (by rw [hs]; simp) hd
    by_cases hone : s.mutex.state = 1
    · exact absurd hu (h.free hone u)
    · exact hown t (hst.resolve_left hone) u hu
  | tryAcquire t ht hi hst hm hu hd =>
    exact .acquire (fun u hu => absurd hu (h.free hst u)) (by rw [hm]; simp) hd
  | park t ht hi hst hm hu hd | fails t ht hf hm hu hd | unlock t x ht hm hu hd
  | destroy t he hi w hw hm hu hd =>
    exact h.congr (by rw [hm]) hd
  | post t he hi hs hm hw hq hu hd | pop t x he ht hi hx hs hm hw hu hd =>
    exact h.post (hpost t he hi) hd

/-! ## Without the recursive flag -/

/-- A free mutex that threads wait for has popped one. -/
def Serves (s : MutexSys τ) : Prop :=
  s.mutex.state = 1 → s.mutex.waiters.queue ≠ [] →
    ∃ t, s.mutex.waiters.phase t = .popped ∨ s.mutex.waiters.phase t = .woken

theorem Inv.serves_step (h : s.Inv) (hv : s.Serves) (hs : s.step tid e = some s') : s'.Serves := by
  intro hst' hq
  cases does_step hs with
  | acquire t he ht hi hst hs =>
    rw [hs] at hst'
    cases hst'
  | tryAcquire t ht hi hst hm =>
    rw [hm] at hst'
    cases hst'
  | park t ht hi hst hm =>
    rw [hm] at hst'
    exact absurd hst' hst
  | fails t ht hf hm =>
    rw [hm] at hst' hq ⊢
    by_cases hi : s.mutex.init = true
    · have hout := Waiters.leave_of_out (hf hi)
      show ∃ u, (s.mutex.waiters.leave t).phase u = _ ∨ (s.mutex.waiters.leave t).phase u = _
      rw [hout]
      exact hv hst' hq
    · exact absurd (h.destroyed (by simpa using hi)) hq
  | post t he hi hs hm hw hq' =>
    rw [hw] at hq
    exact absurd hq' hq
  | pop t x he ht hi hx hs hm hw =>
    refine ⟨x, .inl ?_⟩
    rw [hw]
    exact Function.update_self _ _ _
  | unlock t x ht hm =>
    refine ⟨x, .inr ?_⟩
    rw [hm]
    exact Function.update_self _ _ _
  | destroy t he hi w hw hm =>
    rw [hm] at hq
    exact absurd (h.served.wakeAll hw).2 hq

/-- What the runs of a mutex keep that is not recursive. -/
structure Plain (s : MutexSys τ) : Prop where
  inv : s.Inv
  flag : s.mutex.flags &&& mutexFlagRecursive = 0
  excl : s.Excl
  depth : ∀ t, s.depth t ≤ 1
  serves : s.Serves

omit [DecidableEq τ] in
theorem Plain.depth_eq (h : s.Plain) (ht : s.Holds t) : s.depth t = 1 := by
  have h1 := h.depth t
  unfold Holds at ht
  omega

theorem Plain.step (h : s.Plain) (hok : s.PostsHeld e) (hs : s.step tid e = some s') :
    s'.Plain := by
  have hupd : ∀ {t n}, n ≤ 1 → s'.depth = Function.update s.depth t n → ∀ u, s'.depth u ≤ 1 := by
    intro t n hn hd u
    rw [hd]
    by_cases hut : u = t
    · rw [hut, Function.update_self]
      exact hn
    · rw [Function.update_of_ne hut]
      exact h.depth u
  have hzero : ∀ {t}, s.mutex.state = 1 → s.depth t + 1 ≤ 1 := by
    intro t hst
    have := h.excl.free hst t
    unfold Holds at this
    omega
  have hexcl : s'.Excl := by
    refine h.excl.step (fun t he _ => ?_) (fun t hre => absurd h.flag hre.1) hs
    subst he
    exact h.depth_eq hok
  refine ⟨h.inv.step hs, ?_, hexcl, ?_, h.inv.serves_step h.serves hs⟩
  · cases does_step hs with
    | acquire t he ht hi hst hs hl hm | post t he hi hs hm | pop t x he ht hi hx hs hm =>
      rw [hm.1]
      exact h.flag
    | tryAcquire t ht hi hst hm | park t ht hi hst hm | fails t ht hf hm | unlock t x ht hm
    | destroy t he hi w hw hm =>
      rw [hm]
      exact h.flag
  · cases does_step hs with
    | acquire t he ht hi hst hs hl hm hw hu hd =>
      exact hupd (hzero (hst.resolve_right fun hre => hre.1 h.flag)) hd
    | tryAcquire t ht hi hst hm hu hd => exact hupd (hzero hst) hd
    | post t he hi hs hm hw hq hu hd | pop t x he ht hi hx hs hm hw hu hd =>
      exact hupd (by have := h.depth t; omega) hd
    | park t ht hi hst hm hu hd | fails t ht hf hm hu hd | unlock t x ht hm hu hd
    | destroy t he hi w hw hm hu hd =>
      rw [hd]
      exact h.depth

/-! ## Runs -/

instance (s : MutexSys τ) : ∀ e, Decidable (s.PostsHeld e)
  | .post _ => inferInstanceAs (Decidable (Holds _ _))
  | .pend _ | .retest _ | .tryPend _ | .unlock _ | .destroy _ => instDecidableTrue

omit [DecidableEq τ] in
theorem eq_of_init {flags : UInt32} {priority : UInt16} {m : Mutex τ}
    (hm : Mutex.mutexInit flags priority = .ok m) :
    m = ⟨1, flags ||| priority.toUInt32 <<< 8, 0, 0, true, .empty⟩ := by
  unfold Mutex.mutexInit at hm
  split_ifs at hm
  cases hm
  rfl

/-- The priority is kept above the flags. -/
theorem recursive_or {flags : UInt32} (priority : UInt16) (h : flags &&& mutexFlagRecursive = 0) :
    (flags ||| priority.toUInt32 <<< 8) &&& mutexFlagRecursive = 0 := by
  unfold mutexFlagRecursive at *
  have h' := congrArg UInt32.toNat h
  apply UInt32.toNat_inj.1
  rw [UInt32.toNat_and, UInt32.toNat_or, Nat.and_or_distrib_right]
  simp at h' ⊢
  omega

section

variable {flags : UInt32} {priority : UInt16} {m : Mutex τ} {f : τ → UInt32}

omit [DecidableEq τ] in
theorem Excl.start (m : Mutex τ) (f : τ → UInt32) : (start m f).Excl :=
  ⟨fun _ _ h => absurd h (Nat.lt_irrefl 0), fun _ _ h => absurd h (Nat.lt_irrefl 0)⟩

omit [DecidableEq τ] in
theorem Plain.start (hm : Mutex.mutexInit flags priority = .ok m)
    (hf : flags &&& mutexFlagRecursive = 0) (f : τ → UInt32) : (start m f).Plain := by
  rw [eq_of_init hm]
  exact ⟨⟨Waiters.served_empty, fun _ => rfl⟩, recursive_or priority hf, .start _ f,
    fun _ => Nat.zero_le _,
    fun _ hq => absurd rfl hq⟩

/-- A mutex that is not recursive, posted by its holders only, has one holder at a time and strands
no waiter. -/
theorem run_plain (hm : Mutex.mutexInit flags priority = .ok m)
    (hf : flags &&& mutexFlagRecursive = 0) (h : Reach (step tid) PostsHeld (start m f) s) :
    s.Excludes ∧ s.Serves := by
  have hp : s.Plain :=
    h.invariant (.start hm hf f) fun _ _ _ hi hok hs => hi.step hok hs
  exact ⟨hp.excl.excludes, hp.serves⟩

end

/-- The identifiers of threads in order. -/
def tids {n : ℕ} (t : Fin n) : Int32 := .ofNat (t + 1)

/-- A mutex of `mutex_init` without priority elevation. -/
def noElevation (flags : UInt32) (n : ℕ) : Mutex (Fin n) :=
  ⟨1, flags ||| (0xFFFF : UInt16).toUInt32 <<< 8, 0, 0, true, .empty⟩

theorem init_noElevation (flags : UInt32) (n : ℕ) :
    Mutex.mutexInit flags 0xFFFF = .ok (noElevation flags n) := rfl

/-- The holder has posted, one thread waits and another has been popped. -/
theorem run_plain_freed : ∃ s : MutexSys (Fin 3),
    Reach (step tids) PostsHeld (start (noElevation 0 3) fun _ => 10) s ∧ s.mutex.state = 1
    ∧ s.mutex.waiters.queue = [2] ∧ s.Excludes
    ∧ ∃ t, s.mutex.waiters.phase t = .popped ∨ s.mutex.waiters.phase t = .woken := by
  have hrun : ((runEvents (guarded (step tids) PostsHeld) (start (noElevation 0 3) fun _ => 10)
      [.pend 0, .pend 1, .pend 2, .post 0]).map fun s =>
      (s.mutex.state, s.mutex.waiters.queue)) = some (1, [2]) := by
    decide +kernel
  obtain ⟨s, h, hs⟩ := Option.map_eq_some_iff.1 hrun
  simp only [Prod.mk.injEq] at hs
  have hp : s.Excludes ∧ s.Serves := run_plain (init_noElevation 0 3) rfl (.of_run h)
  refine ⟨s, .of_run h, hs.1, hs.2, hp.1, hp.2 hs.1 ?_⟩
  rw [hs.2]
  simp

end MutexSys

end RTLKIM

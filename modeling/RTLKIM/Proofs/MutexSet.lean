import RTLKIM.MutexSet
import RTLKIM.Proofs.Mutex

/-!
# The priorities that mutexes lend

`Moves` lists what a step does to the priorities. `mutex_pend` shifts the priority it read from the
flags once more before it sets it, and `mutex_try_pend` neither sets one nor saves the thread's.
-/

namespace RTLKIM

/-! ## The priority of a thread -/

namespace Mutex

variable {τ : Type} {m : Mutex τ} {flags : UInt32} {elevation : UInt16}

/-- What `mutex_pend` makes of the priority of its thread. -/
def raised (m : Mutex τ) (priority : UInt32) : UInt32 :=
  if m.prio ≠ mutexPriorityElevationNone then m.prio >>> 8 else priority

/-- The priority that is kept for the thread that has the mutex: in the mutex, or its own where the
mutex changes none. -/
def savedPriority (m : Mutex τ) (priority : UInt32) : UInt32 :=
  if m.prio ≠ mutexPriorityElevationNone then m.acquiredThreadPriority else priority

theorem elevate_eq {priority : UInt32} {p : UInt32 × Mutex τ}
    (h : (m.elevate priority).toOption = some p) :
    p.1 = m.raised priority ∧ p.2.state = m.state ∧ p.2.savedPriority p.1 = priority := by
  unfold elevate schedSetPriority at h
  split_ifs at h with h1 h2
  · cases h
  · cases h
    exact ⟨(if_pos h1).symm, rfl, if_pos h1⟩
  · cases h
    exact ⟨(if_neg h1).symm, rfl, if_neg h1⟩

theorem restore_eq {priority : UInt32} {p : UInt32 × Mutex τ}
    (h : (m.restore priority).toOption = some p) :
    p.1 = m.savedPriority priority ∧ p.2.state = m.state := by
  unfold restore schedSetPriority at h
  split_ifs at h with h1 h2
  · cases h
  · cases h
    exact ⟨(if_pos h1).symm, rfl⟩
  · cases h
    exact ⟨(if_neg h1).symm, rfl⟩

end Mutex

/-! ## Steps of one mutex -/

namespace MutexSys

variable {τ : Type} [DecidableEq τ] {tid : τ → Int32} {s s' : MutexSys τ} {e : MutexEv τ} {t : τ}

/-- The step acquires the mutex or posts it. -/
def Acts (tid : τ → Int32) (s : MutexSys τ) : MutexEv τ → Prop
  | .pend t | .retest t =>
    s.mutex.init = true ∧ (s.mutex.state = 1 ∨ s.mutex.Reentrant (tid t))
  | .tryPend _ => s.mutex.init = true ∧ s.mutex.state = 1
  | .post _ => s.mutex.init = true
  | .unlock _ | .destroy _ => False

instance (tid : τ → Int32) (s : MutexSys τ) : ∀ e, Decidable (s.Acts tid e)
  | .pend _ | .retest _ | .tryPend _ => inferInstanceAs (Decidable (_ ∧ _))
  | .post _ => inferInstanceAs (Decidable (_ = _))
  | .unlock _ | .destroy _ => instDecidableFalse

/-- What a step does to the priorities, to what the mutex saves of them, and to its state. -/
inductive Shifts (tid : τ → Int32) (s : MutexSys τ) (e : MutexEv τ) (s' : MutexSys τ) : Prop
  | acquire (t : τ) (he : e = .pend t ∨ e = .retest t) (hact : s.Acts tid e)
      (hs : s'.mutex.state = 0)
      (hp : s'.priority = Function.update s.priority t (s.mutex.raised (s.priority t)))
      (ha : s'.mutex.savedPriority (s'.priority t) = s.priority t)
      (hd : s'.depth t = s.depth t + 1)
  | tryAcquire (t : τ) (he : e = .tryPend t) (hact : s.Acts tid e)
      (hs : s'.mutex.state = 0) (hp : s'.priority = s.priority)
      (ha : s'.mutex.savedPriority = s.mutex.savedPriority) (hd : s'.depth t = s.depth t + 1)
  | post (t : τ) (he : e = .post t) (hact : s.Acts tid e) (hs : s'.mutex.state = 1)
      (hp : s'.priority = Function.update s.priority t (s.mutex.savedPriority (s.priority t)))
  | rest (hact : ¬ s.Acts tid e) (hs : s'.mutex.state = s.mutex.state)
      (hp : s'.priority = s.priority) (ha : s'.mutex.savedPriority = s.mutex.savedPriority)
      (hd : s'.depth = s.depth)

theorem shifts_pendTest (he : e = .pend t ∨ e = .retest t)
    (h : (s.mutex.pendTest t (tid t) (s.priority t)).toOption.map (s.pended t) = some s') :
    Shifts tid s e s' := by
  have hact : s.Acts tid e ↔
      s.mutex.init = true ∧ (s.mutex.state = 1 ∨ s.mutex.Reentrant (tid t)) := by
    rcases he with rfl | rfl <;> rfl
  unfold Mutex.pendTest at h
  dsimp only at h
  split_ifs at h with h1 h2
  · cases h
    refine .rest (fun ha => ?_) rfl rfl rfl rfl
    rcases (hact.1 ha).2 with h3 | h3
    · exact h1.2.1 h3
    · exact h1.2.2 h3
  · cases h
    exact .rest (fun ha => absurd ((hact.1 ha).1.symm.trans h2) (by simp)) rfl rfl rfl rfl
  · have hi : s.mutex.init = true := by simpa using h2
    rw [toOption_map, Option.map_map, Option.map_eq_some_iff] at h
    obtain ⟨⟨k, m⟩, hp, rfl⟩ := h
    obtain ⟨h3, h4, h5⟩ := Mutex.elevate_eq hp
    dsimp only at h3 h4 h5
    have hst : s.mutex.state = 1 ∨ s.mutex.Reentrant (tid t) := by
      by_contra hst
      rw [not_or] at hst
      exact h1 ⟨hi, hst⟩
    refine .acquire t he (hact.2 ⟨hi, hst⟩) h4 ?_ ?_ (Function.update_self _ _ _)
    · show Function.update s.priority t k = _
      rw [h3]
      rfl
    · show m.savedPriority (Function.update s.priority t k t) = _
      rw [Function.update_self, h5]

theorem shifts_step (h : s.step tid e = some s') : Shifts tid s e s' := by
  cases e with
  | pend t =>
    simp only [step] at h
    split_ifs at h with ht
    unfold Mutex.mutexPend at h
    split_ifs at h with hi
    · cases h
      exact .rest (fun ha => absurd (ha.1.symm.trans hi) (by simp)) rfl rfl rfl rfl
    · exact shifts_pendTest (.inl rfl) h
  | retest t =>
    simp only [step] at h
    split_ifs at h with ht
    exact shifts_pendTest (.inr rfl) h
  | tryPend t =>
    simp only [step] at h
    split_ifs at h with ht
    cases h
    unfold Mutex.mutexTryPend
    split_ifs with hi hst
    · exact .rest (fun ha => absurd (ha.1.symm.trans hi) (by simp)) rfl rfl rfl rfl
    · exact .rest (fun ha => hst ha.2) rfl rfl rfl rfl
    · exact .tryAcquire t rfl ⟨by simpa using hi, by simpa using hst⟩ rfl rfl rfl
        (Function.update_self _ _ _)
  | post t =>
    simp only [step] at h
    split_ifs at h with ht
    unfold Mutex.mutexPost at h
    split_ifs at h with hi
    · cases h
      exact .rest (fun ha => absurd (ha.symm.trans hi) (by simp)) rfl rfl rfl rfl
    · have hact : s.Acts tid (.post t) := by simpa [Acts] using hi
      rw [toOption_map, Option.map_map, Option.map_eq_some_iff] at h
      obtain ⟨⟨k, m⟩, hp, rfl⟩ := h
      obtain ⟨h3, h4⟩ := Mutex.restore_eq hp
      dsimp only at h3 h4
      subst h3
      dsimp only [Function.comp]
      split
      · exact .post t rfl hact h4 rfl
      · exact .post t rfl hact h4 rfl
  | unlock t =>
    simp only [step] at h
    obtain ⟨x, hx, h⟩ := Option.bind_eq_some_iff.1 h
    obtain ⟨m, hm, rfl⟩ := Option.map_eq_some_iff.1 h
    obtain rfl := unlockThread_ok hm
    exact .rest not_false rfl rfl rfl rfl
  | destroy t =>
    simp only [step] at h
    split_ifs at h with ht
    obtain ⟨p, hp, rfl⟩ := Option.map_eq_some_iff.1 h
    obtain ⟨hi, rfl⟩ | ⟨hi, w, hw, rfl⟩ := mutexDestroy_ok hp
    · exact .rest not_false rfl rfl rfl rfl
    · exact .rest not_false rfl rfl rfl rfl

end MutexSys

/-! ## Elevating mutexes -/

namespace MutexSet

section Elevating

variable {μ τ : Type} {flags : μ → UInt32} {elevation : μ → UInt16} {s : MutexSet μ τ}
  {m : μ → Mutex τ} {i j : μ} {l : List μ}

/-- The flags are those that `mutex_init` made. -/
def Configured (flags : μ → UInt32) (elevation : μ → UInt16) (s : MutexSet μ τ) : Prop :=
  ∀ i, (s.sys i).mutex.flags = flags i ||| (elevation i).toUInt32 <<< 8

theorem Configured.start (f : τ → UInt32)
    (hm : ∀ i, Mutex.mutexInit (flags i) (elevation i) = .ok (m i)) :
    (start m f).Configured flags elevation := by
  intro i
  show (m i).flags = _
  rw [MutexSys.eq_of_init (hm i)]

/-- A mutex that does not elevate leaves the priorities alone. -/
theorem Configured.prio_none (h : s.Configured flags elevation) (hi : ¬ Elevating elevation i) :
    (s.sys i).mutex.prio = mutexPriorityElevationNone :=
  Mutex.prio_none (h i) (not_not.1 hi)

theorem elevation_le (hm : ∀ i, Mutex.mutexInit (flags i) (elevation i) = .ok (m i))
    (hi : Elevating elevation i) : (elevation i).toNat ≤ kernelLowestPriority := by
  have h := hm i
  unfold Mutex.mutexInit at h
  split_ifs at h with h1
  by_contra hlt
  exact h1 ⟨Nat.lt_of_not_le hlt, hi⟩

/-- `mutex_pend` sets the priority of the mutex if it is above its field in the flags. -/
theorem raised_of_flags {m : Mutex τ} {p : UInt32}
    (hf : m.flags = flags i ||| (elevation i).toUInt32 <<< 8)
    (hle : (elevation i).toNat ≤ kernelLowestPriority) :
    m.raised p = (elevation i).toUInt32 ↔ flags i >>> 16 &&& 0xFF = (elevation i).toUInt32
      ∨ m.prio = mutexPriorityElevationNone ∧ p = (elevation i).toUInt32 := by
  have hshift := Mutex.prio_shiftRight hf hle
  unfold Mutex.raised
  rw [← hshift]
  split_ifs with hp
  · simp [hp]
  · rw [not_not] at hp
    have hne : m.prio >>> 8 ≠ (elevation i).toUInt32 := by
      rw [hp]
      intro h
      have := congrArg UInt32.toNat h
      rw [UInt16.toNat_toUInt32] at this
      have h63 : kernelLowestPriority = 63 := rfl
      have h255 : (mutexPriorityElevationNone >>> 8).toNat = 255 := by decide
      omega
    simp [hp, hp ▸ hne]

/-- `i` is the only elevating mutex of `l`. -/
def Only (elevation : μ → UInt16) (l : List μ) (i : μ) : Prop :=
  Elevating elevation i ∧ i ∈ l ∧ ∀ j ∈ l, Elevating elevation j → j = i

theorem Only.of_cons (h : Only elevation (i :: l) j) (hi : ¬ Elevating elevation i) :
    Only elevation l j := by
  obtain ⟨h1, h2, h3⟩ := h
  refine ⟨h1, ?_, fun k hk => h3 k (List.mem_cons_of_mem _ hk)⟩
  rcases List.mem_cons.1 h2 with rfl | h2
  · exact absurd h1 hi
  · exact h2

theorem Only.eq_of_cons (h : Only elevation (i :: l) j) (hi : Elevating elevation i) : j = i :=
  (h.2.2 i List.mem_cons_self hi).symm

variable [DecidableEq μ]

instance (elevation : μ → UInt16) (l : List μ) (i : μ) : Decidable (Only elevation l i) :=
  inferInstanceAs (Decidable (_ ∧ _ ∧ _))

theorem Only.of_erase (h : Only elevation (l.erase i) j) (hi : ¬ Elevating elevation i) :
    Only elevation l j := by
  obtain ⟨h1, h2, h3⟩ := h
  refine ⟨h1, List.mem_of_mem_erase h2, fun k hk hke => h3 k ?_ hke⟩
  have hki : k ≠ i := by
    rintro rfl
    exact hi hke
  exact (List.mem_erase_of_ne hki).2 hk

end Elevating

end MutexSet

/-! ## Steps of several mutexes -/

namespace MutexSet

variable {μ τ : Type} {tid : τ → Int32} {s s' : MutexSet μ τ} {i j : μ} {e : MutexEv τ} {t : τ}

theorem acts_view : (s.view i).Acts tid e ↔ (s.sys i).Acts tid e := by cases e <;> rfl

variable [DecidableEq μ] [DecidableEq τ]

/-- What a step on `i` does to the priorities and to what the threads hold. -/
inductive Moves (tid : τ → Int32) (s : MutexSet μ τ) (i : μ) (e : MutexEv τ) (s' : MutexSet μ τ) :
    Prop
  | acquire (t : τ) (he : e = .pend t ∨ e = .retest t) (hact : (s.sys i).Acts tid e)
      (hs : (s'.sys i).mutex.state = 0)
      (hp : s'.priority = Function.update s.priority t ((s.sys i).mutex.raised (s.priority t)))
      (ha : (s'.sys i).mutex.savedPriority (s'.priority t) = s.priority t)
      (hh : s'.held = Function.update s.held t (i :: s.held t))
  | tryAcquire (t : τ) (he : e = .tryPend t) (hact : (s.sys i).Acts tid e)
      (hs : (s'.sys i).mutex.state = 0)
      (hp : s'.priority = s.priority)
      (ha : (s'.sys i).mutex.savedPriority = (s.sys i).mutex.savedPriority)
      (hh : s'.held = Function.update s.held t (i :: s.held t))
  | post (t : τ) (he : e = .post t) (hact : (s.sys i).Acts tid e)
      (hs : (s'.sys i).mutex.state = 1)
      (hp : s'.priority
        = Function.update s.priority t ((s.sys i).mutex.savedPriority (s.priority t)))
      (hh : s'.held = Function.update s.held t ((s.held t).erase i))
  | rest (hact : ¬ (s.sys i).Acts tid e)
      (hs : (s'.sys i).mutex.state = (s.sys i).mutex.state) (hp : s'.priority = s.priority)
      (ha : (s'.sys i).mutex.savedPriority = (s.sys i).mutex.savedPriority)
      (hh : s'.held = s.held)

/-- The step is one of `i`, and leaves the other mutexes as they are. -/
theorem step_sys (h : s.step tid (i, e) = some s') :
    (s.view i).step tid e = some (s'.sys i) ∧ s'.priority = (s'.sys i).priority
      ∧ s'.held = Function.update s.held e.thread (s.record i (s'.sys i) e)
      ∧ ∀ j, j ≠ i → s'.sys j = s.sys j := by
  simp only [step] at h
  split_ifs at h
  obtain ⟨m, hm, rfl⟩ := Option.map_eq_some_iff.1 h
  dsimp only
  rw [Function.update_self]
  exact ⟨hm, rfl, rfl, fun j hj => Function.update_of_ne hj _ _⟩

theorem moves_step (h : s.step tid (i, e) = some s') : Moves tid s i e s' := by
  obtain ⟨hm, hp', hh', -⟩ := step_sys h
  cases MutexSys.shifts_step hm with
  | acquire t he hact hs hp ha hd =>
    refine .acquire t he (acts_view.1 hact) hs (hp'.trans hp) (by rw [hp']; exact ha) (hh'.trans ?_)
    have hd' : (s.sys i).depth t < (s'.sys i).depth t := hd ▸ Nat.lt_succ_self _
    rcases he with rfl | rfl
    · exact congrArg (Function.update s.held t) (if_pos hd')
    · exact congrArg (Function.update s.held t) (if_pos hd')
  | tryAcquire t he hact hs hp ha hd =>
    refine .tryAcquire t he (acts_view.1 hact) hs (hp'.trans hp) ha (hh'.trans ?_)
    have hd' : (s.sys i).depth t < (s'.sys i).depth t := hd ▸ Nat.lt_succ_self _
    subst he
    exact congrArg (Function.update s.held t) (if_pos hd')
  | post t he hact hs hp =>
    refine .post t he (acts_view.1 hact) hs (hp'.trans hp) (hh'.trans ?_)
    subst he
    have hi : ¬ (s.sys i).mutex.init = false := fun hf => absurd (hact.symm.trans hf) (by simp)
    exact congrArg (Function.update s.held t) (if_neg hi)
  | rest hact hs hp ha hd =>
    refine .rest (acts_view.not.1 hact) hs (hp'.trans hp) ha (hh'.trans ?_)
    have hrec : s.record i (s'.sys i) e = s.held e.thread := by
      have hd' : ∀ t, ¬ (s.sys i).depth t < (s'.sys i).depth t := fun t => hd ▸ Nat.lt_irrefl _
      cases e with
      | pend t | retest t | tryPend t => exact if_neg (hd' t)
      | post t => exact if_pos (by simpa [MutexSys.Acts, view] using hact)
      | unlock t | destroy t => rfl
    rw [hrec, Function.update_eq_self]

/-! ## Elevation -/

section Elevation

variable {flags : μ → UInt32} {elevation : μ → UInt16}

/-- A thread with one elevating mutex has the priority of that mutex. -/
def Elevated (elevation : μ → UInt16) (s : MutexSet μ τ) : Prop :=
  ∀ t i, Only elevation (s.held t) i → s.priority t = (elevation i).toUInt32

/-- A thread that acquires its one elevating mutex by `mutex_pend` finds the priority of that mutex
above its field in the flags, or has it already where the flags say not to elevate; by
`mutex_try_pend` it has it already. A post that leaves a thread with one finds its priority saved.
-/
def KeepsElevation (tid : τ → Int32) (flags : μ → UInt32) (elevation : μ → UInt16)
    (s : MutexSet μ τ) : μ × MutexEv τ → Prop
  | (i, .pend t) | (i, .retest t) =>
    (s.sys i).Acts tid (.pend t) → Only elevation (i :: s.held t) i →
      flags i >>> 16 &&& 0xFF = (elevation i).toUInt32
        ∨ (s.sys i).mutex.prio = mutexPriorityElevationNone
          ∧ s.priority t = (elevation i).toUInt32
  | (i, .tryPend t) =>
    (s.sys i).Acts tid (.tryPend t) → Only elevation (i :: s.held t) i →
      s.priority t = (elevation i).toUInt32
  | (i, .post t) =>
    (s.sys i).Acts tid (.post t) → ∀ j ∈ (s.held t).erase i, Elevating elevation i →
      Only elevation ((s.held t).erase i) j →
        (s.sys i).mutex.savedPriority (s.priority t) = (elevation j).toUInt32
  | (_, .unlock _) | (_, .destroy _) => True

instance (tid : τ → Int32) (flags : μ → UInt32) (elevation : μ → UInt16) (s : MutexSet μ τ) :
    ∀ e, Decidable (s.KeepsElevation tid flags elevation e)
  | (_, .pend _) | (_, .retest _) | (_, .tryPend _) | (_, .post _) =>
    inferInstanceAs (Decidable (_ → _))
  | (_, .unlock _) | (_, .destroy _) => instDecidableTrue

theorem Configured.step (h : s.Configured flags elevation) (hs : s.step tid (i, e) = some s') :
    s'.Configured flags elevation := by
  obtain ⟨hm, -, -, ho⟩ := step_sys hs
  intro j
  by_cases hj : j = i
  · subst hj
    exact (MutexSys.flags_step hm).trans (h j)
  · rw [ho j hj]
    exact h j

theorem Elevated.step (h : s.Elevated elevation) (hc : s.Configured flags elevation)
    (hle : Elevating elevation i → (elevation i).toNat ≤ kernelLowestPriority)
    (hok : s.KeepsElevation tid flags elevation (i, e)) (hs : s.step tid (i, e) = some s') :
    s'.Elevated elevation := by
  intro u j hj
  cases moves_step hs with
  | acquire t he hact hs' hp ha hh =>
    rw [hh] at hj
    rw [hp]
    by_cases hu : u = t
    · subst hu
      rw [Function.update_self] at hj ⊢
      by_cases hE : Elevating elevation i
      · obtain rfl := hj.eq_of_cons hE
        have hok' : flags j >>> 16 &&& 0xFF = (elevation j).toUInt32
            ∨ (s.sys j).mutex.prio = mutexPriorityElevationNone
              ∧ s.priority u = (elevation j).toUInt32 := by
          rcases he with rfl | rfl
          · exact hok hact hj
          · exact hok hact hj
        exact (raised_of_flags (hc j) (hle hE)).2 hok'
      · rw [← h u j (hj.of_cons hE)]
        exact if_neg (not_not.2 (hc.prio_none hE))
    · rw [Function.update_of_ne hu] at hj ⊢
      exact h u j hj
  | tryAcquire t he hact hs' hp ha hh =>
    rw [hh] at hj
    rw [hp]
    by_cases hu : u = t
    · subst hu he
      rw [Function.update_self] at hj
      by_cases hE : Elevating elevation i
      · obtain rfl := hj.eq_of_cons hE
        exact hok hact hj
      · exact h u j (hj.of_cons hE)
    · rw [Function.update_of_ne hu] at hj
      exact h u j hj
  | post t he hact hs' hp hh =>
    rw [hh] at hj
    rw [hp]
    by_cases hu : u = t
    · subst hu he
      rw [Function.update_self] at hj ⊢
      by_cases hE : Elevating elevation i
      · exact hok hact j hj.2.1 hE hj
      · rw [← h u j (hj.of_erase hE)]
        exact if_neg (not_not.2 (hc.prio_none hE))
    · rw [Function.update_of_ne hu] at hj ⊢
      exact h u j hj
  | rest hact hs' hp ha hh =>
    rw [hh] at hj
    rw [hp]
    exact h u j hj

/-- A step that keeps the property is one of these. -/
theorem Elevated.keeps (h : s'.Elevated elevation) (hc : s.Configured flags elevation)
    (hle : Elevating elevation i → (elevation i).toNat ≤ kernelLowestPriority)
    (hs : s.step tid (i, e) = some s') : s.KeepsElevation tid flags elevation (i, e) := by
  have hacquire : ∀ t, e = .pend t ∨ e = .retest t → (s.sys i).Acts tid e →
      Only elevation (i :: s.held t) i → flags i >>> 16 &&& 0xFF = (elevation i).toUInt32
        ∨ (s.sys i).mutex.prio = mutexPriorityElevationNone
          ∧ s.priority t = (elevation i).toUInt32 := by
    intro t he hact hO
    cases moves_step hs with
    | acquire u hu _ _ hp _ hh =>
      have htu : u = t := by
        rcases he with rfl | rfl <;> rcases hu with hu | hu <;> cases hu <;> rfl
      subst htu
      have := h u i (by rw [hh, Function.update_self]; exact hO)
      rw [hp, Function.update_self] at this
      exact (raised_of_flags (hc i) (hle hO.1)).1 this
    | tryAcquire u hu | post u hu =>
      rcases he with rfl | rfl <;> cases hu
    | rest hn => exact absurd hact hn
  cases e with
  | pend t => exact hacquire t (.inl rfl)
  | retest t => exact hacquire t (.inr rfl)
  | tryPend t =>
    intro hact hO
    cases moves_step hs with
    | acquire u hu => rcases hu with hu | hu <;> cases hu
    | tryAcquire u hu _ _ hp _ hh =>
      cases hu
      rw [← hp]
      exact h t i (by rw [hh, Function.update_self]; exact hO)
    | post u hu => cases hu
    | rest hn => exact absurd hact hn
  | post t =>
    intro hact j _ _ hO
    cases moves_step hs with
    | acquire u hu => rcases hu with hu | hu <;> cases hu
    | tryAcquire u hu => cases hu
    | post u hu _ _ hp hh =>
      cases hu
      have := h t j (by rw [hh, Function.update_self]; exact hO)
      rw [hp, Function.update_self] at this
      exact this
    | rest hn => exact absurd hact hn
  | unlock t | destroy t => exact trivial

/-- Along such runs a thread has the priority of a mutex while it is its one elevating mutex, and
any other step of them ends that. -/
theorem run_elevated {m : μ → Mutex τ} {f : τ → UInt32}
    (hm : ∀ i, Mutex.mutexInit (flags i) (elevation i) = .ok (m i))
    (h : Reach (step tid) (KeepsElevation tid flags elevation) (start m f) s) :
    s.Elevated elevation ∧ ∀ e s', s.step tid e = some s' →
      (s'.Elevated elevation ↔ s.KeepsElevation tid flags elevation e) := by
  have hstart : (start m f).Elevated elevation := fun t i hi => absurd hi.2.1 (by simp [start])
  obtain ⟨h1, h2⟩ := h.invariant
    (P := fun s => s.Elevated elevation ∧ s.Configured flags elevation) ⟨hstart, .start f hm⟩
    fun s e s' hP hok hs => ⟨hP.1.step hP.2 (elevation_le hm) hok hs, hP.2.step hs⟩
  exact ⟨h1, fun e s' hs =>
    ⟨fun h' => h'.keeps h2 (elevation_le hm) hs, fun hok => h1.step h2 (elevation_le hm) hok hs⟩⟩

end Elevation

/-- A mutex of `mutex_init` with a priority to elevate to. -/
def elevatingMutex (flags : UInt32) (p : UInt16) (n : ℕ) : Mutex (Fin n) :=
  ⟨1, flags ||| p.toUInt32 <<< 8, 0, 0, true, .empty⟩

theorem init_elevatingMutex {p : UInt16} (flags : UInt32) (n : ℕ)
    (hp : p.toNat ≤ kernelLowestPriority) :
    Mutex.mutexInit flags p = .ok (elevatingMutex flags p n) := by
  unfold Mutex.mutexInit elevatingMutex
  rw [if_neg (by omega)]

/-- A mutex of priority 0 and one of priority 5. -/
def zeroAndFive (i : Bool) : UInt16 := if i then 5 else 0

/-- A thread with the mutex of priority 0 has acquired and posted the other. -/
theorem run_elevated_nested : ∃ s : MutexSet Bool (Fin 1),
    Reach (step MutexSys.tids) (KeepsElevation MutexSys.tids (fun _ => 0) zeroAndFive)
        (start (fun i => elevatingMutex 0 (zeroAndFive i) 1) fun _ => 20) s
      ∧ s.held 0 = [false] ∧ s.priority 0 = 0 := by
  have hrun : ((runEvents (guarded (step MutexSys.tids)
      (KeepsElevation MutexSys.tids (fun _ => 0) zeroAndFive))
      (start (fun i => elevatingMutex 0 (zeroAndFive i) 1) fun _ => 20)
      [(false, .pend 0), (true, .pend 0), (true, .post 0)]).map fun s =>
        (s.held 0, decide (Only zeroAndFive (s.held 0) false))) = some ([false], true) := by
    decide +kernel
  obtain ⟨s, hs, hd⟩ := Option.map_eq_some_iff.1 hrun
  rw [Prod.mk.injEq] at hd
  have hm : ∀ i, Mutex.mutexInit 0 (zeroAndFive i)
      = .ok (elevatingMutex 0 (zeroAndFive i) 1) := by
    intro i
    exact init_elevatingMutex 0 1 (by cases i <;> decide)
  exact ⟨s, .of_run hs, hd.1, (run_elevated hm (.of_run hs)).1 0 false (of_decide_eq_true hd.2)⟩

/-- A thread of priority 20 that acquires a mutex of priority 5 gets priority 0. -/
theorem not_elevated_pend : Mutex.mutexInit 0 5 = .ok (elevatingMutex 0 5 1)
    ∧ ∃ s : MutexSet (Fin 1) (Fin 1),
      Reach (step MutexSys.tids) anyStep (start (fun _ => elevatingMutex 0 5 1) fun _ => 20) s
        ∧ s.held 0 = [0] ∧ s.priority 0 = 0 ∧ ¬ s.Elevated fun _ => 5 := by
  have hrun : ((runEvents (guarded (step MutexSys.tids) anyStep)
      (start (fun _ => elevatingMutex 0 5 1) fun _ => 20) [((0 : Fin 1), .pend 0)]).map fun s =>
        (s.held 0, s.priority 0, decide (Only (fun _ => 5) (s.held 0) 0)))
      = some ([0], 0, true) := by decide +kernel
  obtain ⟨s, hs, hd⟩ := Option.map_eq_some_iff.1 hrun
  simp only [Prod.mk.injEq] at hd
  refine ⟨init_elevatingMutex 0 1 (by decide), s, .of_run hs, hd.1, hd.2.1, fun h => ?_⟩
  have := h 0 0 (of_decide_eq_true hd.2.2)
  rw [hd.2.1] at this
  revert this
  decide

end MutexSet

end RTLKIM

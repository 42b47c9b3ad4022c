import RTLKIM.Proofs.MutexSet

/-!
# The priorities that threads get back

`Unwinds` is the invariant: posting what it holds, the last acquired first, a thread comes back to
the priority it started with. The word in which a mutex saves a priority holds one only, so a mutex
that a thread pends again loses it, and `mutex_try_pend` does not write it.
-/

namespace RTLKIM

namespace Mutex

variable {τ : Type} {m : Mutex τ} {p : UInt32}

/-- The mutex changes the priority of the thread that has it. -/
def Lends (m : Mutex τ) : Prop := m.prio ≠ mutexPriorityElevationNone

instance (m : Mutex τ) : Decidable m.Lends := inferInstanceAs (Decidable (_ ≠ _))

theorem savedPriority_of_lends (h : m.Lends) : m.savedPriority p = m.acquiredThreadPriority :=
  if_pos h

theorem savedPriority_of_not (h : ¬ m.Lends) : m.savedPriority p = p := if_neg h

end Mutex

namespace MutexSet

variable {μ τ : Type} {tid : τ → Int32} {s s' : MutexSet μ τ} {i : μ} {e : MutexEv τ} {t : τ}
  {m : μ → Mutex τ} {f : τ → UInt32}

/-- The mutexes that lend a priority among those that a thread holds. -/
def lent (m : μ → Mutex τ) (s : MutexSet μ τ) (t : τ) : List μ :=
  (s.held t).filter fun i => (m i).Lends

/-- The priority that a thread of priority `p` has once it has posted the mutexes of `l`. -/
def unwind (s : MutexSet μ τ) (l : List μ) (p : UInt32) : UInt32 :=
  l.foldl (fun p i => (s.sys i).mutex.savedPriority p) p

theorem unwind_congr {l : List μ} {p : UInt32} (h : ∀ j ∈ l,
    (s'.sys j).mutex.savedPriority = (s.sys j).mutex.savedPriority) :
    s'.unwind l p = s.unwind l p :=
  List.foldl_ext _ _ _ fun _ j hj => congrFun (h j hj) _

theorem mem_lent : i ∈ s.lent m t ↔ i ∈ s.held t ∧ (m i).Lends := by simp [lent]

/-- A mutex that lends a priority is held once, by one thread, and each thread gets its own back. -/
structure Unwinds (m : μ → Mutex τ) (f : τ → UInt32) (s : MutexSet μ τ) : Prop where
  prio : ∀ i, (s.sys i).mutex.prio = (m i).prio
  busy : ∀ i t, (m i).Lends → i ∈ s.held t → (s.sys i).mutex.state ≠ 1
  alone : ∀ i t u, (m i).Lends → i ∈ s.held t → i ∈ s.held u → t = u
  nodup : ∀ t, (s.lent m t).Nodup
  unwinds : ∀ t, s.unwind (s.lent m t) (s.priority t) = f t

theorem Unwinds.start : (start m f).Unwinds m f :=
  ⟨fun _ => rfl, fun _ _ _ h => absurd h (by simp [MutexSet.start]),
    fun _ _ _ _ h => absurd h (by simp [MutexSet.start]), fun _ => .nil, fun _ => rfl⟩

/-- Of the mutexes that lend a priority a thread posts the one it acquired last. -/
def PostsLast [DecidableEq μ] (m : μ → Mutex τ) (tid : τ → Int32) (s : MutexSet μ τ) :
    μ × MutexEv τ → Prop
  | (i, .post t) => (m i).Lends → (s.sys i).Acts tid (.post t) → (s.lent m t).head? = some i
  | _ => True

/-- A mutex that lends a priority is acquired when it is free, and by `mutex_try_pend` only by a
thread of the priority that is saved in it. -/
def SavesPriority (m : μ → Mutex τ) (tid : τ → Int32) (s : MutexSet μ τ) : μ × MutexEv τ → Prop
  | (i, .pend t) | (i, .retest t) =>
    (m i).Lends → (s.sys i).Acts tid (.pend t) → (s.sys i).mutex.state = 1
  | (i, .tryPend t) =>
    (m i).Lends → (s.sys i).Acts tid (.tryPend t) →
      (s.sys i).mutex.acquiredThreadPriority = s.priority t
  | _ => True

variable [DecidableEq μ] [DecidableEq τ]

instance (m : μ → Mutex τ) (tid : τ → Int32) (s : MutexSet μ τ) :
    ∀ e, Decidable (s.PostsLast m tid e)
  | (_, .post _) => inferInstanceAs (Decidable (_ → _ → _))
  | (_, .pend _) | (_, .retest _) | (_, .tryPend _) | (_, .unlock _) | (_, .destroy _) =>
    instDecidableTrue

instance (m : μ → Mutex τ) (tid : τ → Int32) (s : MutexSet μ τ) :
    ∀ e, Decidable (s.SavesPriority m tid e)
  | (_, .pend _) | (_, .retest _) | (_, .tryPend _) => inferInstanceAs (Decidable (_ → _ → _))
  | (_, .post _) | (_, .unlock _) | (_, .destroy _) => instDecidableTrue

theorem Unwinds.prio_step (h : s.Unwinds m f) (hs : s.step tid (i, e) = some s') (j : μ) :
    (s'.sys j).mutex.prio = (m j).prio := by
  obtain ⟨hm, -, -, ho⟩ := step_sys hs
  rw [← h.prio j]
  by_cases hj : j = i
  · subst hj
    unfold Mutex.prio
    rw [MutexSys.flags_step hm]
    rfl
  · rw [ho j hj]

/-- A free mutex is acquired by a thread whose priority is saved in it. -/
theorem Unwinds.acquire (h : s.Unwinds m f) (hs : s.step tid (i, e) = some s')
    (hfree : (m i).Lends → (s.sys i).mutex.state = 1) (hst : (s'.sys i).mutex.state = 0)
    (hpr : ∀ u, u ≠ t → s'.priority u = s.priority u)
    (hsaved : (s'.sys i).mutex.savedPriority (s'.priority t) = s.priority t)
    (hh : s'.held = Function.update s.held t (i :: s.held t)) : s'.Unwinds m f := by
  obtain ⟨-, -, -, ho⟩ := step_sys hs
  have hprio := h.prio_step hs
  have hnone : (m i).Lends → ∀ u, i ∉ s.held u := fun hl u hu => h.busy i u hl hu (hfree hl)
  have hheld : ∀ u j, j ∈ s'.held u → j ≠ i → j ∈ s.held u := by
    intro u j hj hji
    rw [hh] at hj
    by_cases hu : u = t
    · subst hu
      rw [Function.update_self, List.mem_cons] at hj
      exact hj.resolve_left hji
    · rwa [Function.update_of_ne hu] at hj
  have honly : ∀ u, (m i).Lends → i ∈ s'.held u → u = t := by
    intro u hl hi
    by_contra hu
    rw [hh, Function.update_of_ne hu] at hi
    exact hnone hl u hi
  have hlent : ∀ u, u ≠ t → s'.lent m u = s.lent m u := fun u hu => by
    unfold lent
    rw [hh, Function.update_of_ne hu]
  have hself : s'.lent m t = if (m i).Lends then i :: s.lent m t else s.lent m t := by
    unfold lent
    rw [hh, Function.update_self, List.filter_cons]
    simp only [decide_eq_true_eq]
  have hunwind : ∀ u p, s'.unwind (s.lent m u) p = s.unwind (s.lent m u) p := fun u p =>
    unwind_congr fun j hj => by
      have hji : j ≠ i := by
        rintro rfl
        exact hnone (mem_lent.1 hj).2 u (mem_lent.1 hj).1
      rw [ho j hji]
  refine ⟨hprio, fun j u hl hj => ?_, fun j u v hl hu hv => ?_, fun u => ?_, fun u => ?_⟩
  · by_cases hji : j = i
    · subst hji
      rw [hst]
      decide
    · rw [ho j hji]
      exact h.busy j u hl (hheld u j hj hji)
  · by_cases hji : j = i
    · subst hji
      rw [honly u hl hu, honly v hl hv]
    · exact h.alone j u v hl (hheld u j hu hji) (hheld v j hv hji)
  · by_cases hu : u = t
    · subst hu
      rw [hself]
      split_ifs with hl
      · exact List.nodup_cons.2 ⟨fun hi => hnone hl u (mem_lent.1 hi).1, h.nodup u⟩
      · exact h.nodup u
    · rw [hlent u hu]
      exact h.nodup u
  · by_cases hu : u = t
    · subst hu
      rw [hself, ← h.unwinds u]
      split_ifs with hl
      · show s'.unwind (s.lent m u) ((s'.sys i).mutex.savedPriority (s'.priority u)) = _
        rw [hunwind, hsaved]
      · have hl' : ¬ (s'.sys i).mutex.Lends := by
          unfold Mutex.Lends
          rw [hprio i]
          exact hl
        rw [hunwind, ← hsaved, Mutex.savedPriority_of_not hl']
    · rw [hlent u hu, hunwind, hpr u hu]
      exact h.unwinds u

/-- The thread that posts the last mutex it acquired gets back what the mutex saved. -/
theorem Unwinds.post (h : s.Unwinds m f) (hs : s.step tid (i, e) = some s')
    (hlast : (m i).Lends → (s.lent m t).head? = some i)
    (hp : s'.priority
      = Function.update s.priority t ((s.sys i).mutex.savedPriority (s.priority t)))
    (hh : s'.held = Function.update s.held t ((s.held t).erase i)) : s'.Unwinds m f := by
  obtain ⟨-, -, -, ho⟩ := step_sys hs
  have hmem : (m i).Lends → i ∈ s.held t := fun hl =>
    (mem_lent.1 (List.mem_of_mem_head? (hlast hl))).1
  have hheld : ∀ u j, j ∈ s'.held u → j ∈ s.held u := by
    intro u j hj
    rw [hh] at hj
    by_cases hu : u = t
    · subst hu
      rw [Function.update_self] at hj
      exact List.mem_of_mem_erase hj
    · rwa [Function.update_of_ne hu] at hj
  have hlent : ∀ u, u ≠ t → s'.lent m u = s.lent m u := fun u hu => by
    unfold lent
    rw [hh, Function.update_of_ne hu]
  have hself : s'.lent m t = (s.lent m t).erase i := by
    unfold lent
    rw [hh, Function.update_self, List.erase_filter]
  have hgone : (m i).Lends → ∀ u, i ∉ s'.held u := by
    intro hl u hi
    obtain rfl : u = t := h.alone i u t hl (hheld u i hi) (hmem hl)
    have hi' : i ∈ s'.lent m u := mem_lent.2 ⟨hi, hl⟩
    rw [hself, (h.nodup u).mem_erase_iff] at hi'
    exact hi'.1 rfl
  have hunwind : ∀ u p, s'.unwind (s'.lent m u) p = s.unwind (s'.lent m u) p := fun u p =>
    unwind_congr fun j hj => by
      have hji : j ≠ i := by
        rintro rfl
        exact hgone (mem_lent.1 hj).2 u (mem_lent.1 hj).1
      rw [ho j hji]
  refine ⟨h.prio_step hs, fun j u hl hj => ?_, fun j u v hl hu hv => ?_, fun u => ?_, fun u => ?_⟩
  · have hji : j ≠ i := by
      rintro rfl
      exact hgone hl u hj
    rw [ho j hji]
    exact h.busy j u hl (hheld u j hj)
  · exact h.alone j u v hl (hheld u j hu) (hheld v j hv)
  · by_cases hu : u = t
    · subst hu
      rw [hself]
      exact (h.nodup u).erase i
    · rw [hlent u hu]
      exact h.nodup u
  · rw [hunwind, hp, ← h.unwinds u]
    by_cases hu : u = t
    · subst hu
      rw [hself, Function.update_self]
      by_cases hl : (m i).Lends
      · obtain ⟨l, hcons⟩ := List.head?_eq_some_iff.1 (hlast hl)
        rw [hcons, List.erase_cons_head]
        rfl
      · have hl' : ¬ (s.sys i).mutex.Lends := by
          unfold Mutex.Lends
          rw [h.prio i]
          exact hl
        rw [List.erase_of_not_mem fun hi => hl (mem_lent.1 hi).2, Mutex.savedPriority_of_not hl']
    · rw [hlent u hu, Function.update_of_ne hu]

theorem Unwinds.step (h : s.Unwinds m f) (hlast : s.PostsLast m tid (i, e))
    (hok : s.SavesPriority m tid (i, e)) (hs : s.step tid (i, e) = some s') : s'.Unwinds m f := by
  cases moves_step hs with
  | acquire t he hact hst hp ha hh =>
    refine h.acquire hs (fun hl => ?_) hst (fun u hu => ?_) ha hh
    · rcases he with rfl | rfl
      · exact hok hl hact
      · exact hok hl hact
    · rw [hp, Function.update_of_ne hu]
  | tryAcquire t he hact hst hp ha hh =>
    subst he
    refine h.acquire hs (fun hl => hact.2) hst (fun u _ => congrFun hp u) ?_ hh
    rw [ha, hp]
    by_cases hl : (m i).Lends
    · rw [Mutex.savedPriority_of_lends (by unfold Mutex.Lends; rw [h.prio i]; exact hl)]
      exact hok hl hact
    · exact Mutex.savedPriority_of_not (by unfold Mutex.Lends; rw [h.prio i]; exact hl)
  | post t he hact hst hp hh =>
    subst he
    exact h.post hs (fun hl => hlast hl hact) hp hh
  | rest hact hst hp ha hh =>
    obtain ⟨-, -, -, ho⟩ := step_sys hs
    have hlent : ∀ u, s'.lent m u = s.lent m u := fun u => by
      unfold lent
      rw [hh]
    have hstate : ∀ j, (s'.sys j).mutex.state = (s.sys j).mutex.state
        ∧ (s'.sys j).mutex.savedPriority = (s.sys j).mutex.savedPriority := by
      intro j
      by_cases hji : j = i
      · subst hji
        exact ⟨hst, ha⟩
      · rw [ho j hji]
        exact ⟨rfl, rfl⟩
    refine ⟨h.prio_step hs, fun j u hl hj => ?_, fun j u v hl hu hv => ?_, fun u => ?_, fun u => ?_⟩
    · rw [(hstate j).1]
      exact h.busy j u hl (hh ▸ hj)
    · exact h.alone j u v hl (hh ▸ hu) (hh ▸ hv)
    · rw [hlent]
      exact h.nodup u
    · rw [hlent, hp, unwind_congr fun j _ => (hstate j).2]
      exact h.unwinds u

/-- Along runs that post the last mutex acquired, and acquire none that would lose the priority of
its thread, a thread that holds no mutex that lends one has its own. -/
theorem run_restores (h : Reach (step tid) (fun s e => s.PostsLast m tid e ∧ s.SavesPriority m tid e)
    (start m f) s) (ht : ∀ i ∈ s.held t, ¬ (m i).Lends) : s.priority t = f t := by
  have hU : s.Unwinds m f := h.invariant .start fun s e s' hU hok hs =>
    hU.step hok.1 hok.2 hs
  have hnil : s.lent m t = [] := List.filter_eq_nil_iff.2 fun i hi => by simpa using ht i hi
  have := hU.unwinds t
  rw [hnil] at this
  exact this

/-- The thread that held two mutexes has its priority back, and the other one has acquired the inner.
-/
theorem run_restores_nested : ∃ s : MutexSet Bool (Fin 2),
    Reach (step MutexSys.tids) (fun s e =>
        s.PostsLast (fun i => elevatingMutex 0 (zeroAndFive i) 2) MutexSys.tids e
          ∧ s.SavesPriority (fun i => elevatingMutex 0 (zeroAndFive i) 2) MutexSys.tids e)
        (start (fun i => elevatingMutex 0 (zeroAndFive i) 2) fun _ => 20) s
      ∧ s.held 1 = [true] ∧ s.held 0 = [] ∧ s.priority 0 = 20 := by
  have hrun : ((runEvents (guarded (step MutexSys.tids) fun s e =>
        s.PostsLast (fun i => elevatingMutex 0 (zeroAndFive i) 2) MutexSys.tids e
          ∧ s.SavesPriority (fun i => elevatingMutex 0 (zeroAndFive i) 2) MutexSys.tids e)
      (start (fun i => elevatingMutex 0 (zeroAndFive i) 2) fun _ => 20)
      [(false, .pend 0), (true, .pend 0), (true, .pend 1), (true, .post 0), (true, .unlock 0),
        (true, .retest 1), (false, .post 0)]).map fun s => (s.held 1, s.held 0))
      = some ([true], []) := by decide +kernel
  obtain ⟨s, hs, hd⟩ := Option.map_eq_some_iff.1 hrun
  rw [Prod.mk.injEq] at hd
  have hp : s.priority 0 = 20 := run_restores (.of_run hs) (by rw [hd.2]; simp)
  exact ⟨s, .of_run hs, hd.1, hd.2, hp⟩

/-- A thread of priority 20 gets 0 back after a `mutex_try_pend`, and the lowest priority after it
has pended a recursive mutex twice. -/
theorem not_restores :
    (∃ s : MutexSet (Fin 1) (Fin 1), Reach (step MutexSys.tids)
        (PostsLast (fun _ => elevatingMutex 0 5 1) MutexSys.tids)
        (start (fun _ => elevatingMutex 0 5 1) fun _ => 20) s ∧ s.held 0 = [] ∧ s.priority 0 = 0)
      ∧ ∃ s : MutexSet (Fin 1) (Fin 1), Reach (step MutexSys.tids)
          (PostsLast (fun _ => elevatingMutex mutexFlagRecursive 5 1) MutexSys.tids)
          (start (fun _ => elevatingMutex mutexFlagRecursive 5 1) fun _ => 20) s
        ∧ s.held 0 = [] ∧ s.priority 0 = 63 := by
  have hrun : ((runEvents (guarded (step MutexSys.tids)
      (PostsLast (fun _ => elevatingMutex 0 5 1) MutexSys.tids))
      (start (fun _ => elevatingMutex 0 5 1) fun _ => 20) [((0 : Fin 1), .tryPend 0), (0, .post 0)]).map
        fun s => (s.held 0, s.priority 0)) = some ([], 0) := by decide +kernel
  have hrun' : ((runEvents (guarded (step MutexSys.tids)
      (PostsLast (fun _ => elevatingMutex mutexFlagRecursive 5 1) MutexSys.tids))
      (start (fun _ => elevatingMutex mutexFlagRecursive 5 1) fun _ => 20)
      [((0 : Fin 1), .pend 0), (0, .pend 0), (0, .post 0), (0, .post 0)]).map
        fun s => (s.held 0, s.priority 0)) = some ([], 63) := by decide +kernel
  obtain ⟨s, hs, hd⟩ := Option.map_eq_some_iff.1 hrun
  obtain ⟨s', hs', hd'⟩ := Option.map_eq_some_iff.1 hrun'
  rw [Prod.mk.injEq] at hd hd'
  exact ⟨⟨s, .of_run hs, hd⟩, s', .of_run hs', hd'⟩

end MutexSet

end RTLKIM

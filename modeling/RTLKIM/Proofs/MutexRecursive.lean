import Mathlib.Data.Fintype.Basic
import RTLKIM.Proofs.Mutex

/-!
# Recursive mutexes

A locked mutex with the recursive flag is granted to the thread of `locker_tid`. `mutex_try_pend`
leaves that as it is, and the first post frees the mutex whatever its depth. It excludes along the runs
whose `mutex_try_pend` calls find no other thread in `locker_tid` and whose posts leave no acquisition
behind, as `locker_tid` is then the holder's or nobody's; and any other call to these two lets a second
thread in.
-/

namespace RTLKIM

variable {τ : Type} [DecidableEq τ]

namespace MutexSys

variable {tid : τ → Int32} {s s' : MutexSys τ} {e : MutexEv τ} {t u : τ}

/-! ## Exclusion -/

/-- A post is of the only acquisition its thread has not posted, and `mutex_try_pend` takes the mutex
when no other thread is the one of `locker_tid`. -/
def KeepsOwner (tid : τ → Int32) (s : MutexSys τ) : MutexEv τ → Prop
  | .post t => s.mutex.init = true → s.depth t = 1
  | .tryPend t => s.mutex.init = true → s.mutex.state = 1 → ∀ u, tid u = s.mutex.lockerTid → u = t
  | _ => True

instance [Fintype τ] (s : MutexSys τ) : ∀ e, Decidable (KeepsOwner tid s e)
  | .post _ => inferInstanceAs (Decidable (_ → _))
  | .tryPend _ => inferInstanceAs (Decidable (_ → _ → _))
  | .pend _ | .retest _ | .unlock _ | .destroy _ => instDecidableTrue

/-- `locker_tid` is the identifier of no thread but the holder. -/
structure Owned (tid : τ → Int32) (s : MutexSys τ) : Prop where
  excl : s.Excl
  owner : ∀ t, s.Holds t → ∀ u, tid u = s.mutex.lockerTid → u = t

omit [DecidableEq τ] in
theorem Owned.congr (h : Owned tid s) (hexcl : s'.Excl)
    (hl : s'.mutex.lockerTid = s.mutex.lockerTid) (hd : s'.depth = s.depth) : Owned tid s' := by
  refine ⟨hexcl, fun t ht u hu => h.owner t ?_ u (hu.trans hl)⟩
  unfold Holds at ht ⊢
  rwa [← hd]

theorem Owned.step (hinj : Function.Injective tid) (h : Owned tid s) (hok : KeepsOwner tid s e)
    (hs : s.step tid e = some s') : Owned tid s' := by
  have hexcl : s'.Excl := by
    refine h.excl.step (fun t he => ?_) (fun t hre u hu => (h.owner u hu t hre.2).symm) hs
    subst he
    exact hok
  cases does_step hs with
  | acquire t he ht hi hst hs hl hm hw hu hd =>
    have hholds : s'.Holds t := by
      unfold Holds
      rw [hd, Function.update_self]
      exact Nat.succ_pos _
    refine ⟨hexcl, fun v hv u hu => ?_⟩
    rw [hexcl.excludes v t hv hholds]
    exact hinj (hu.trans hl)
  | tryAcquire t ht hi hst hm hu hd hp he =>
    subst he
    refine ⟨hexcl, fun v hv u hu => ?_⟩
    obtain rfl : v = t := (holds_update hd hv).resolve_right (h.excl.free hst v)
    rw [hm] at hu
    exact hok hi hst u hu
  | park t ht hi hst hm hu hd | fails t ht hf hm hu hd | unlock t x ht hm hu hd
  | destroy t he hi w hw hm hu hd =>
    exact h.congr hexcl (by rw [hm]) hd
  | post t he hi hs | pop t x he ht hi hx hs =>
    -- the mutex is free
    exact ⟨hexcl, fun v hv => absurd hv (hexcl.free hs v)⟩

/-! ## The steps left out -/

/-- A call of the thread makes it a second holder. -/
def LetsIn (tid : τ → Int32) (s : MutexSys τ) (u : τ) : Prop :=
  ∃ e s', (e = .pend u ∨ e = .tryPend u) ∧ s.step tid e = some s' ∧ ¬ s'.Excludes

/-- Another thread acquires the mutex that one holds. -/
theorem not_excludes_of_acquire (ht : s.Holds t) (hut : u ≠ t)
    (hd : s'.depth = Function.update s.depth u (s.depth u + 1)) : ¬ s'.Excludes := by
  intro hex
  refine hut (hex u t ?_ ?_)
  · unfold Holds
    rw [hd, Function.update_self]
    exact Nat.succ_pos _
  · unfold Holds
    rw [hd, Function.update_of_ne hut.symm]
    exact ht

/-- A post frees the mutex. -/
theorem post_frees (hi : s.mutex.init = true) (h : s.step tid (.post t) = some s') :
    s'.mutex.init = true ∧ s'.mutex.state = 1
      ∧ s'.depth = Function.update s.depth t (s.depth t - 1) := by
  simp only [MutexSys.step] at h
  split_ifs at h
  unfold Mutex.mutexPost at h
  rw [if_neg (by rw [hi]; simp), toOption_map, Option.map_map, Option.map_eq_some_iff] at h
  obtain ⟨⟨k, m⟩, hp, rfl⟩ := h
  obtain ⟨a, ha⟩ := restore_ok hp
  dsimp only at ha
  subst ha
  dsimp only [Function.comp]
  split
  · exact ⟨hi, rfl, rfl⟩
  · exact ⟨hi, rfl, rfl⟩

/-- After a post that leaves an acquisition behind, every other thread gets the mutex. -/
theorem letsIn_post (hi : s.mutex.init = true) (hd : 2 ≤ s.depth t)
    (h : s.step tid (.post t) = some s') (hut : u ≠ t) (hu : s'.Free u) : LetsIn tid s' u := by
  obtain ⟨hi', hst', hd'⟩ := post_frees hi h
  have hholds : s'.Holds t := by
    unfold Holds
    rw [hd', Function.update_self]
    omega
  refine ⟨.tryPend u, _, .inr rfl, if_pos hu, not_excludes_of_acquire hholds hut ?_⟩
  unfold Mutex.mutexTryPend
  rw [if_neg (by rw [hi']; simp), if_neg (not_not.2 hst')]
  rfl

omit [DecidableEq τ] in
/-- The priority of a recursive mutex can be set. -/
theorem elevate_recursive {m : Mutex τ} {priority : UInt16}
    (hf : m.flags = mutexFlagRecursive ||| priority.toUInt32 <<< 8)
    (hp : priority.toNat ≤ kernelLowestPriority ∨ priority.toUInt32 = mutexPriorityElevationNone)
    (k : UInt32) : ∃ p, m.elevate k = .ok p := by
  unfold Mutex.elevate
  rcases hp with hp | hp
  · rw [Mutex.prio_shiftRight hf hp]
    split_ifs
    · exact ⟨_, rfl⟩
    · exact ⟨_, rfl⟩
  · rw [if_neg (not_not.2 (Mutex.prio_none hf hp))]
    exact ⟨_, rfl⟩

/-- A locked mutex is granted to the thread of `locker_tid`. -/
theorem pend_reentrant (hi : s.mutex.init = true) (hre : s.mutex.Reentrant (tid u))
    (hset : ∀ m : Mutex τ, m.flags = s.mutex.flags → ∀ k, ∃ p, m.elevate k = .ok p)
    (hu : s.Free u) : ∃ s', s.step tid (.pend u) = some s'
      ∧ s'.depth = Function.update s.depth u (s.depth u + 1) := by
  have hinit : ¬ s.mutex.init = false := by
    rw [hi]
    simp
  simp only [MutexSys.step]
  rw [if_pos hu]
  unfold Mutex.mutexPend Mutex.pendTest
  rw [if_neg hinit, if_neg fun h => h.2.2 hre]
  dsimp only
  rw [if_neg hinit]
  obtain ⟨⟨k, m⟩, hp⟩ := hset { s.mutex with
    waiters := s.mutex.waiters.leave u, state := 0, lockerTid := tid u } rfl (s.priority u)
  rw [hp]
  exact ⟨_, rfl, rfl⟩

/-- `mutex_try_pend` takes a free mutex. -/
theorem tryPend_takes (hi : s.mutex.init = true) (hst : s.mutex.state = 1)
    (h : s.step tid (.tryPend t) = some s') : s'.mutex = { s.mutex with state := 0 }
      ∧ s'.depth = Function.update s.depth t (s.depth t + 1) := by
  simp only [MutexSys.step] at h
  split_ifs at h
  unfold Mutex.mutexTryPend at h
  rw [if_neg (by rw [hi]; simp), if_neg (not_not.2 hst)] at h
  cases h
  exact ⟨rfl, rfl⟩

theorem recursive_flag (priority : UInt16) :
    (mutexFlagRecursive ||| priority.toUInt32 <<< 8) &&& mutexFlagRecursive ≠ 0 := by
  intro h
  have h' := congrArg UInt32.toNat h
  rw [UInt32.toNat_and, UInt32.toNat_or, Nat.and_or_distrib_right] at h'
  simp [mutexFlagRecursive] at h'

/-- After a `mutex_try_pend` of another, the thread of `locker_tid` gets the mutex. -/
theorem letsIn_tryPend {priority : UInt16} (hflags : s.mutex.flags
      = mutexFlagRecursive ||| priority.toUInt32 <<< 8)
    (hp : priority.toNat ≤ kernelLowestPriority ∨ priority.toUInt32 = mutexPriorityElevationNone)
    (hi : s.mutex.init = true) (hst : s.mutex.state = 1) (htid : tid u = s.mutex.lockerTid)
    (h : s.step tid (.tryPend t) = some s') (hut : u ≠ t) (hu : s'.Free u) : LetsIn tid s' u := by
  obtain ⟨hm, hd⟩ := tryPend_takes hi hst h
  have hholds : s'.Holds t := by
    unfold Holds
    rw [hd, Function.update_self]
    exact Nat.succ_pos _
  have hflags' : s'.mutex.flags = mutexFlagRecursive ||| priority.toUInt32 <<< 8 := by
    rw [hm]
    exact hflags
  have hre : s'.mutex.Reentrant (tid u) := by
    refine ⟨?_, ?_⟩
    · rw [hflags']
      exact recursive_flag priority
    · rw [hm]
      exact htid
  have hi' : s'.mutex.init = true := by
    rw [hm]
    exact hi
  obtain ⟨s'', hs'', hd''⟩ := pend_reentrant hi' hre
    (fun m hm k => elevate_recursive (hm.trans hflags') hp k) hu
  exact ⟨.pend u, s'', .inl rfl, hs'', not_excludes_of_acquire hholds hut hd''⟩

/-! ## The result -/

omit [DecidableEq τ] in
theorem Owned.start (m : Mutex τ) (f : τ → UInt32) : Owned tid (start m f) :=
  ⟨.start m f, fun _ h => absurd h (Nat.lt_irrefl 0)⟩

/-- A recursive mutex excludes along the runs that keep `locker_tid` no other thread's than its
holder's. Any other post, and any other `mutex_try_pend`, lets another thread in by its next call: after
such a post every thread, after such a `mutex_try_pend` the one of `locker_tid`. -/
theorem run_excludes {priority : UInt16} {m : Mutex τ} {f : τ → UInt32}
    (hinj : Function.Injective tid) (hm : Mutex.mutexInit mutexFlagRecursive priority = .ok m)
    (h : Reach (step tid) (KeepsOwner tid) (start m f) s) :
    s.Excludes
      ∧ (∀ t s', s.PostsHeld (.post t) → ¬ KeepsOwner tid s (.post t) →
        s.step tid (.post t) = some s' → ∀ u ≠ t, s'.Free u → LetsIn tid s' u)
      ∧ ∀ t s', ¬ KeepsOwner tid s (.tryPend t) → s.step tid (.tryPend t) = some s' →
        ∃ u ≠ t, tid u = s.mutex.lockerTid ∧ (s'.Free u → LetsIn tid s' u) := by
  have hflags : s.mutex.flags = mutexFlagRecursive ||| priority.toUInt32 <<< 8 := by
    refine h.invariant (P := fun s => s.mutex.flags = mutexFlagRecursive ||| priority.toUInt32 <<< 8) ?_
      fun _ _ _ hi _ hs => (flags_step hs).trans hi
    rw [eq_of_init hm]
    rfl
  have hp : priority.toNat ≤ kernelLowestPriority
      ∨ priority.toUInt32 = mutexPriorityElevationNone := by
    unfold Mutex.mutexInit at hm
    split_ifs at hm with hp
    by_contra hnot
    rw [not_or, not_le] at hnot
    exact hp hnot
  have hown : Owned tid s := h.invariant (.start m f) fun _ _ _ hi hok hs => hi.step hinj hok hs
  refine ⟨hown.excl.excludes, fun t s' hheld hnot hs u hut hu => ?_, fun t s' hnot hs => ?_⟩
  · simp only [KeepsOwner, Classical.not_imp] at hnot
    have hheld' : 0 < s.depth t := hheld
    exact letsIn_post hnot.1 (by omega) hs hut hu
  · simp only [KeepsOwner, Classical.not_imp, not_forall] at hnot
    obtain ⟨hi, hst, u, htid, hut⟩ := hnot
    exact ⟨u, hut, htid, letsIn_tryPend hflags hp hi hst htid hs hut⟩

/-- One thread has acquired the mutex by `mutex_try_pend` after it had it by `mutex_pend`, and another
waits for it. -/
theorem run_excludes_handed_over : Function.Injective (tids (n := 2)) ∧ ∃ s : MutexSys (Fin 2),
    Reach (step tids) (KeepsOwner tids) (start (noElevation mutexFlagRecursive 2) fun _ => 10) s
    ∧ s.Holds 1 ∧ s.mutex.waiters.queue = [0] ∧ s.Excludes := by
  have hrun : ((runEvents (guarded (step tids) (KeepsOwner tids))
      (start (noElevation mutexFlagRecursive 2) fun _ => 10)
      [.pend 0, .post 0, .pend 1, .post 1, .tryPend 1, .pend 0]).map fun s =>
      (decide (s.Holds 1), s.mutex.waiters.queue)) = some (true, [0]) := by
    decide +kernel
  obtain ⟨s, h, hs⟩ := Option.map_eq_some_iff.1 hrun
  simp only [Prod.mk.injEq, decide_eq_true_eq] at hs
  have hinj : Function.Injective (tids (n := 2)) := by decide
  exact ⟨hinj, s, .of_run h, hs.1, hs.2, (run_excludes hinj (init_noElevation _ 2) (.of_run h)).1⟩

/-- The thread of a stale `locker_tid` pends what another holds by `mutex_try_pend`. -/
theorem not_excludes_stale_locker : Function.Injective (tids (n := 2)) ∧ ∃ s : MutexSys (Fin 2),
    Reach (step tids) PostsHeld (start (noElevation mutexFlagRecursive 2) fun _ => 10) s
    ∧ ¬ s.Excludes := by
  have hrun : ((runEvents (guarded (step tids) PostsHeld)
      (start (noElevation mutexFlagRecursive 2) fun _ => 10)
      [.pend 0, .post 0, .tryPend 1, .pend 0]).map fun s =>
      (decide (s.Holds 0), decide (s.Holds 1))) = some (true, true) := by
    decide +kernel
  obtain ⟨s, h, hs⟩ := Option.map_eq_some_iff.1 hrun
  simp only [Prod.mk.injEq, decide_eq_true_eq] at hs
  refine ⟨by decide, s, .of_run h, fun hex => ?_⟩
  exact absurd (hex 0 1 hs.1 hs.2) (by decide)

/-! ## Depth -/

/-- No thread but `u` gets the mutex: its `mutex_pend` blocks, its `mutex_try_pend` returns
`OS_MUTEX_LOCKED`. -/
def Unavailable (tid : τ → Int32) (s : MutexSys τ) (u : τ) : Prop :=
  ∀ t, t ≠ u →
    (s.Free t → ∃ s', s.step tid (.pend t) = some s' ∧ s'.mutex.waiters.phase t = .parked)
    ∧ (s.mutex.waiters.phase t = .woken →
      ∃ s', s.step tid (.retest t) = some s' ∧ s'.mutex.waiters.phase t = .parked)
    ∧ (s.Free t → ∃ s', s.step tid (.tryPend t) = some s' ∧ s'.mutex = s.mutex
      ∧ s'.ret t = some ⟨.mutexLocked, some s.mutex.state⟩)

/-- The mutex is not destroyed. -/
def NoDestroy (_ : MutexSys τ) : MutexEv τ → Prop
  | .destroy _ => False
  | _ => True

/-- The mutex is not destroyed, and a post leaves no `mutex_pend` without its post. -/
def PostsLast (s : MutexSys τ) : MutexEv τ → Prop
  | .destroy _ => False
  | .post t => s.pends t ≤ 1 ∧ ∀ u, u ≠ t → s.pends u = 0
  | _ => True

instance (s : MutexSys τ) : ∀ e, Decidable (s.NoDestroy e)
  | .destroy _ => instDecidableFalse
  | .pend _ | .retest _ | .tryPend _ | .unlock _ | .post _ => instDecidableTrue

instance [Fintype τ] (s : MutexSys τ) : ∀ e, Decidable (s.PostsLast e)
  | .destroy _ => instDecidableFalse
  | .post _ => inferInstanceAs (Decidable (_ ∧ _))
  | .pend _ | .retest _ | .tryPend _ | .unlock _ => instDecidableTrue

/-- A thread that pended and has not posted is the one of `locker_tid`. -/
structure Pended (tid : τ → Int32) (s : MutexSys τ) : Prop where
  init : s.mutex.init = true
  locked : ∀ u, 0 < s.pends u → s.mutex.state ≠ 1 ∧ s.mutex.lockerTid = tid u

theorem Pended.step (h : Pended tid s) (hok : s.PostsLast e) (hs : s.step tid e = some s') :
    Pended tid s' := by
  cases does_step hs with
  | acquire t he ht hi hst hs hl hm hw hu hd hp =>
    refine ⟨hm.2.trans h.init, fun u hu => ⟨by rw [hs]; simp, ?_⟩⟩
    rw [hl]
    rw [hp] at hu
    by_cases hut : u = t
    · rw [hut]
    · rw [Function.update_of_ne hut] at hu
      obtain ⟨h1, h2⟩ := h.locked u hu
      exact (hst.resolve_left h1).2.trans h2
  | tryAcquire t ht hi hst hm hu hd hp =>
    refine ⟨by rw [hm]; exact h.init, fun u hu => ?_⟩
    rw [hp] at hu
    exact absurd hst (h.locked u hu).1
  | park t ht hi hst hm hu hd hp | fails t ht hf hm hu hd hp | unlock t x ht hm hu hd hp =>
    refine ⟨by rw [hm]; exact h.init, fun u hu => ?_⟩
    rw [hp] at hu
    rw [hm]
    exact h.locked u hu
  | post t he hi hs hm hw hq hu hd hp | pop t x he ht hi hx hs hm hw hu hd hp =>
    subst he
    refine ⟨hm.2.trans h.init, fun u hu => ?_⟩
    rw [hp] at hu
    by_cases hut : u = t
    · rw [hut, Function.update_self] at hu
      have := hok.1
      omega
    · rw [Function.update_of_ne hut, hok.2 u hut] at hu
      omega
  | destroy t he =>
    subst he
    exact hok.elim

theorem Pended.unavailable (h : Pended tid s) (hinj : Function.Injective tid) {u : τ}
    (hu : 0 < s.pends u) : Unavailable tid s u := by
  intro t htu
  obtain ⟨hst, hl⟩ := h.locked u hu
  have hre : ¬ s.mutex.Reentrant (tid t) := fun hre => htu (hinj (hre.2.trans hl))
  have htest : s.mutex.pendTest t (tid t) (s.priority t)
      = .ok (none, s.priority t, { s.mutex with waiters := s.mutex.waiters.park t }) := by
    unfold Mutex.pendTest
    rw [if_pos ⟨h.init, hst, hre⟩]
  set s₁ : MutexSys τ := { s with mutex := { s.mutex with waiters := s.mutex.waiters.park t } }
  have hparked : s₁.mutex.waiters.phase t = .parked := Function.update_self _ _ _
  have hinit : ¬ s.mutex.init = false := by
    rw [h.init]
    simp
  refine ⟨fun hf => ⟨s₁, ?_, hparked⟩, fun hw => ⟨s₁, ?_, hparked⟩,
    fun hf => ⟨s.returns t ⟨.mutexLocked, some s.mutex.state⟩, ?_, rfl, ?_⟩⟩
  · simp only [MutexSys.step]
    rw [if_pos hf, Mutex.mutexPend, if_neg hinit, htest]
    rfl
  · simp only [MutexSys.step]
    rw [if_pos hw, htest]
    rfl
  · simp only [MutexSys.step]
    rw [if_pos hf, Mutex.mutexTryPend, if_neg hinit, if_pos hst]
    rfl
  · exact Function.update_self _ _ _

/-- Along the runs whose posts are of the last `mutex_pend`, the mutex is unavailable to the others
while a thread has one that it has not posted. -/
theorem run_unavailable {flags : UInt32} {priority : UInt16} {m : Mutex τ} {f : τ → UInt32}
    (hinj : Function.Injective tid) (hm : Mutex.mutexInit flags priority = .ok m)
    (h : Reach (step tid) PostsLast (start m f) s) {u : τ} (hu : 0 < s.pends u) :
    Unavailable tid s u := by
  refine (h.invariant (P := Pended tid) ⟨?_, ?_⟩ fun _ _ _ hi hok hs => hi.step hok hs).unavailable
    hinj hu
  · rw [eq_of_init hm]
    rfl
  · exact fun _ h => absurd h (Nat.lt_irrefl 0)

/-- Three nested calls to `mutex_pend`. -/
theorem run_unavailable_nested : Function.Injective (tids (n := 2)) ∧ ∃ s : MutexSys (Fin 2),
    Reach (step tids) PostsLast (start (noElevation mutexFlagRecursive 2) fun _ => 10) s
    ∧ s.pends 0 = 3 ∧ Unavailable tids s 0 := by
  have hrun : ((runEvents (guarded (step tids) PostsLast)
      (start (noElevation mutexFlagRecursive 2) fun _ => 10)
      [.pend 0, .pend 0, .tryPend 1, .pend 0]).map fun s => s.pends 0) = some 3 := by
    decide +kernel
  obtain ⟨s, h, hs⟩ := Option.map_eq_some_iff.1 hrun
  have hinj : Function.Injective (tids (n := 2)) := by decide
  exact ⟨hinj, s, .of_run h, hs, run_unavailable hinj (init_noElevation _ 2) (.of_run h) (by omega)⟩

/-- After two calls to `mutex_pend` and one to `mutex_post`, another thread gets the mutex. -/
theorem not_unavailable_nested_post : Function.Injective (tids (n := 2)) ∧ ∃ s : MutexSys (Fin 2),
    Reach (step tids) NoDestroy (start (noElevation mutexFlagRecursive 2) fun _ => 10) s
    ∧ s.pends 0 = 1 ∧ ¬ Unavailable tids s 0 := by
  have hrun : ((runEvents (guarded (step tids) NoDestroy)
      (start (noElevation mutexFlagRecursive 2) fun _ => 10) [.pend 0, .pend 0, .post 0]).map fun s =>
      (s.pends 0, decide (s.Free 1), (s.step tids (.tryPend 1)).map fun s => s.ret 1))
      = some (1, true, some (some ⟨.noErr, none⟩)) := by
    decide +kernel
  obtain ⟨s, h, hs⟩ := Option.map_eq_some_iff.1 hrun
  simp only [Prod.mk.injEq, decide_eq_true_eq] at hs
  refine ⟨by decide, s, .of_run h, hs.1, fun hu => ?_⟩
  obtain ⟨s', h1, -, h2⟩ := (hu 1 (by decide)).2.2 hs.2.1
  have h3 := hs.2.2
  rw [h1, Option.map_some, Option.some_inj, h2, Option.some_inj] at h3
  cases h3

end MutexSys

end RTLKIM

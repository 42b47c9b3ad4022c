import RTLKIM.Proofs.SchedCall
import RTLKIM.Lib.Run

/-!
# Every step

What a step can be (`Step`), that it keeps `Core`, and that it panics nowhere. The one thing to know
of a step is that it does not record a joiner on a target between its search and its wake up, which
would then push another node than that of the thread it made ready.
-/

namespace RTLKIM

namespace Sched

variable {s s' : Sched} {act : ℕ → Option ℕ} {t x c now n : ℕ} {e : SchedEv}

/-- Every thread is in its place, and a thread that a joiner is about to mark dead is gone. -/
structure Sound (s : Sched) : Prop where
  core : s.Core s.activeThread
  marks : ∀ t x, s.pc t = .waitMarkDead x → (s.pc x).gone = true

/-- The step records no joiner on a target that is about to wake up another. -/
def RecordsInTime (s : Sched) : SchedEv → Prop
  | .stmt c _ => ∀ t x i, s.activeThread c = some t → s.pc t = .waitRecord x →
      s.pc x ≠ .exitWake (some i)
  | _ => True

instance (s : Sched) : ∀ e, Decidable (s.RecordsInTime e)
  | .stmt c _ => decidable_of_iff (∀ t ∈ s.activeThread c, ∀ x ∈ (s.pc t).target,
      s.pc t = .waitRecord x → (s.pc x).waking = false) (by
    refine ⟨fun h t x i hc hp hx => ?_, fun h t hc x _ hp => ?_⟩
    · have hw := h t hc x (by rw [hp]; rfl) hp
      simp [hx, Pc.waking] at hw
    · cases hx : s.pc x with
      | exitWake j =>
        rcases j with _ | i
        · rfl
        · exact absurd hx (h t x i hc hp)
      | _ => rfl)
  | .initAp _ | .call _ _ _ | .timer _ _ => instDecidableTrue

/-- What a step can be. -/
inductive Step (s : Sched) : SchedEv → Sched → Prop
  | initAp (c : ℕ) (hc : c < s.cpuCount) (hn : s.activeThread c = none) :
      Step s (.initAp c) (s.createIdle c)
  | call (c now t : ℕ) (k : SchedCall) (s' : Sched) (hc : s.activeThread c = some t)
      (hk : s.MayCall c t k) (hr : s.perform c now t k = .ok s') : Step s (.call c now k) s'
  | stmt (c now t : ℕ) (s' : Sched) (hc : s.activeThread c = some t) (hp : s.pc t ≠ .run)
      (hr : s.stmt c now t = .ok s') : Step s (.stmt c now) s'
  | timer (c now t : ℕ) (s' : Sched) (hc : s.activeThread c = some t)
      (hp : (s.pc t).critical = false) (hr : s.selectThread c now = .ok s') :
      Step s (.timer c now) s'

theorem step_spec (hs : s.step e = some s') : Step s e s' := by
  unfold Sched.step at hs
  split_ifs at hs with he
  have hr : s.exec e = .ok s' := by
    rcases hx : s.exec e with _ | s₁
    · rw [hx] at hs
      cases hs
    · rw [hx] at hs
      cases hs
      rfl
  cases e with
  | initAp c =>
    cases hr
    exact .initAp c he.1 he.2
  | call c now k =>
    obtain ⟨t, hc, hk⟩ := he
    refine .call c now t k s' hc hk ?_
    have hr' : (s.activeThread c).elim (.error .nullDeref) (s.perform c now · k) = .ok s' := hr
    rwa [Option.mem_def.1 hc] at hr'
  | stmt c now =>
    obtain ⟨t, hc, hp⟩ := he
    refine .stmt c now t s' hc hp ?_
    have hr' : (s.activeThread c).elim (.error .nullDeref) (s.stmt c now) = .ok s' := hr
    rwa [Option.mem_def.1 hc] at hr'
  | timer c now =>
    obtain ⟨t, hc, hp⟩ := he
    exact .timer c now t s' hc hp hr

/-- A call is made by a thread that is not the idle one, and in no other call. -/
theorem MayCall.caller {k : SchedCall} (h : s.MayCall c t k) :
    t ≠ s.idleThread c ∧ s.pc t = .run := by
  unfold MayCall at h
  split at h
  · exact ⟨h.1, h.2.1⟩
  · exact h

theorem Core.perform (h : s.Core s.activeThread) (hc : s.activeThread c = some t)
    (hne : t ≠ s.idleThread c) (hp : s.pc t = .run) (k : SchedCall) :
    ∃ s', s.perform c now t k = .ok s' ∧ s'.Core s'.activeThread := by
  have hidle := h.notIdle_of_ne hc hne
  have hgoto : ∀ p : Pc, p.gone = false → (s.goto t p).Core s.activeThread := fun p hg =>
    h.goto_running hc hidle (by rw [hp]; rfl) (by rw [hp]; rfl) hg
  cases k with
  | create k a m =>
    have hact : (s.createKernelThread t k a m).activeThread = s.activeThread := by
      unfold Sched.createKernelThread
      split_ifs <;> rfl
    exact ⟨_, rfl, by rw [hact]; exact h.createKernelThread hc hp k a m⟩
  | sleep ms => exact ⟨_, rfl, h.sleep hc hidle hp ms⟩
  | lock type object => exact ⟨_, rfl, h.lock hc hidle hp type object⟩
  | unlock type object d =>
    obtain ⟨s', h1, h2, h3⟩ := h.unlock hc hne hp type object d
    exact ⟨s', h1, by rwa [h3]⟩
  | setPriority k =>
    have hact : (s.setPriority t k).activeThread = s.activeThread := by
      unfold Sched.setPriority
      split_ifs <;> rfl
    exact ⟨_, rfl, by rw [hact]; exact h.setPriority hc hidle hp k⟩
  | setCause cause => exact ⟨_, rfl, h.setThread fun T => ⟨rfl, rfl, rfl, rfl, rfl, rfl⟩⟩
  | schedule => exact ⟨_, rfl, hgoto _ rfl⟩
  | wait target =>
    rcases target with _ | x
    · exact ⟨_, rfl, h.returns _⟩
    · exact ⟨_, rfl, hgoto _ rfl⟩
  | exit ret =>
    refine ⟨_, rfl, Core.goto_running (c := c) (h.setThread fun T => ⟨rfl, rfl, rfl, rfl, rfl, rfl⟩)
      hc hidle ?_ ?_ rfl⟩
    · show (s.pc t).yields = false
      rw [hp]
      rfl
    · show (s.pc t).gone = false
      rw [hp]
      rfl

theorem waitDead_activeThread : (s.waitDead t x).activeThread = s.activeThread := by
  unfold Sched.waitDead
  split_ifs <;> rfl

theorem waitZombie_activeThread : (s.waitZombie t x).activeThread = s.activeThread := by
  unfold Sched.waitZombie
  split_ifs <;> rfl

/-- A round of the loop over the children changes no CPU's active thread. -/
theorem exitChildren_activeThread (h : s.exitChildren t = .ok s') :
    s'.activeThread = s.activeThread := by
  unfold Sched.exitChildren at h
  split at h
  · cases h
  · split at h
    · cases h
      rfl
    · unfold Sched.adopt at h
      simp only [] at h
      split at h
      · cases h
      · split at h
        · cases h
        · cases h
          split_ifs <;> rfl

theorem cleanJoinedThread_activeThread (h : s.cleanJoinedThread t x = .ok s') :
    s'.activeThread = s.activeThread := by
  unfold Sched.cleanJoinedThread at h
  split at h
  · cases h
  · cases h
    rfl

theorem cleanJoinedThread_pc (h : s.cleanJoinedThread t x = .ok s') : s'.pc = s.pc := by
  unfold Sched.cleanJoinedThread at h
  split at h
  · cases h
  · cases h
    rfl

/-- A statement dereferences `NULL`, or keeps every thread in its place. -/
theorem Sound.stmt (h : s.Sound) (now : ℕ) (hc : s.activeThread c = some t)
    (hrec : ∀ x i, s.pc t = .waitRecord x → s.pc x ≠ .exitWake (some i)) :
    s.stmt c now t = .error .nullDeref
      ∨ ∃ s', s.stmt c now t = .ok s' ∧ s'.Core s'.activeThread := by
  have hcore := h.core
  have hselect : ∀ p, Leaves (s.pc t) p → ∃ s', (s.goto t p).selectThread c now = .ok s'
      ∧ s'.Core s'.activeThread := by
    intro p hp
    obtain ⟨s', -, h1, h2, -⟩ := hcore.selectThread now hc hp
    exact ⟨s', h1, h2⟩
  have hclean : ∀ x r, (s.pc t).yields = false → (s.pc t).gone = false → s.pc t ≠ .run →
      ∃ s', (s.cleanJoinedThread t x).map (fun s' => (s'.returns t r).goto t .run) = .ok s'
        ∧ s'.Core s'.activeThread := by
    intro x r hy hg hr
    obtain ⟨s', h1, h2⟩ := hcore.cleaned (x := x) hc hy hg hr r
    refine ⟨s', h1, ?_⟩
    rcases h3 : s.cleanJoinedThread t x with _ | s₁
    · rw [h3] at h1
      cases h1
    · rw [h3] at h1
      cases h1
      have hact := cleanJoinedThread_activeThread h3
      show Core _ s₁.activeThread
      rwa [hact]
  unfold Sched.stmt
  cases hp : s.pc t with
  | run => exact .inr ⟨s, rfl, hcore⟩
  | sched => exact .inr (hselect .run (by rw [hp]; exact .sched))
  | waitDead x => exact .inr ⟨_, rfl, by rw [waitDead_activeThread]; exact hcore.waitDead hc hp⟩
  | waitZombie x => exact .inr ⟨_, rfl, by rw [waitZombie_activeThread]; exact hcore.waitZombie hc hp⟩
  | waitMarkDead x => exact .inr ⟨_, rfl, hcore.waitMarkDead hc hp (h.marks t x hp)⟩
  | waitClean x => exact .inr (hclean x _ (by rw [hp]; rfl) (by rw [hp]; rfl) (by rw [hp]; simp))
  | waitJoining x => exact .inr ⟨_, rfl, hcore.waitJoining hc hp⟩
  | waitRecord x => exact .inr ⟨_, rfl, hcore.waitRecord hp fun i => hrec x i hp⟩
  | waitSched x => exact .inr (hselect (.waitResumed x) (by rw [hp]; exact .wait x))
  | waitResumed x => exact .inr (hclean x _ (by rw [hp]; rfl) (by rw [hp]; rfl) (by rw [hp]; simp))
  | exitZombie => exact .inr ⟨_, rfl, hcore.exitZombie hc hp⟩
  | exitTestInit => exact .inr ⟨_, rfl, hcore.exitTestInit hc hp⟩
  | exitEnter => exact .inr ⟨_, rfl, hcore.exitEnter hc hp⟩
  | exitPush => exact .inr ⟨_, rfl, hcore.exitPush hc hp⟩
  | exitChildren =>
    rcases hcore.exitChildren hc hp with h1 | ⟨s', h1, h2⟩
    · exact .inl h1
    · exact .inr ⟨s', h1, by rwa [exitChildren_activeThread h1]⟩
  | exitDelete =>
    obtain ⟨s', h1, h2, -, h3⟩ := hcore.exitDelete hc hp
    exact .inr ⟨s', h1, by rwa [h3]⟩
  | exitSearch => exact .inr ⟨_, rfl, hcore.exitSearch hc hp⟩
  | exitWake j =>
    obtain ⟨s', h1, h2, -, h3⟩ := hcore.exitWake hc hp
    exact .inr ⟨s', h1, by rwa [h3]⟩
  | exitLeave => exact .inr ⟨_, rfl, hcore.exitLeave hc hp⟩
  | exitSched => exact .inr (hselect .exited (by rw [hp]; exact .exit))
  | exited => exact absurd hp ((hcore.good t).stays (hcore.on hc))

theorem goto_self : s.goto t (s.pc t) = s := by
  unfold Sched.goto
  rw [Function.update_eq_self]

/-- The timer's `select_thread`. -/
theorem Core.timer (h : s.Core s.activeThread) (hc : s.activeThread c = some t) :
    ∃ s' n, s.selectThread c now = .ok s' ∧ s'.Core s'.activeThread ∧ Switch s s' c n := by
  obtain ⟨s', n, h1, h2, h3⟩ := h.selectThread now hc (.timer (s.pc t))
  rw [goto_self] at h1 h3
  exact ⟨s', n, h1, h2, h3⟩

/-! ## The start -/

/-- CPU 0's idle thread alone. -/
theorem Core.firstIdle (n : ℕ) :
    ((blank n).createIdle 0).Core ((blank n).createIdle 0).activeThread := by
  set s := (blank n).createIdle 0 with hs
  have hl : ∀ t, Located s.table t none := fun t q => by
    show List.count t [] = _
    simp
  have h0 : s.thread 0 = ⟨0, 0, idleThreadPriority, .running, .sem, 0, none, some [], 0, 0,
      .correctly⟩ := rfl
  have hth : ∀ t, t ≠ 0 → s.thread t = ⟨0, 0, 0, .dead, .sem, 0, none, none, 0, 0, .correctly⟩ :=
    fun t ht => Function.update_of_ne ht _ _
  have hpc0 : s.pc 0 = .run := rfl
  have hpc : ∀ t, t ≠ 0 → s.pc t = .exited := fun t ht => Function.update_of_ne ht _ _
  have hact : ∀ c, s.activeThread c = if c = 0 then some 0 else none := fun c =>
    Function.update_apply _ _ _ _
  have hcr : s.created = 1 := rfl
  refine ⟨fun t => ?_, fun c t hc => ?_, Nat.one_pos⟩
  · by_cases ht : t = 0
    · subst ht
      have hon : s.On s.activeThread 0 := by
        unfold On
        rw [h0, hact]
        rfl
      refine ⟨⟨none, hl 0, .running (by rw [h0]) hon (by rw [hpc0]; rfl)⟩, by rw [h0], .inl ?_,
        by rw [hpc0]; simp [Pc.pushed], by rw [h0]; simp, by rw [hpc0]; simp, by rw [hpc0]; simp,
        fun _ => ⟨by rw [hpc0]; rfl, by rw [h0]; simp⟩, fun c hc _ => ?_, by rw [hcr]; simp,
        by rw [hpc0]; simp⟩
      · rfl
      · rw [h0, hpc0, hcr]
        rw [hact] at hc
        refine ⟨rfl, ?_, Nat.one_pos, .inl rfl⟩
        by_contra hne
        rw [if_neg (Ne.symm hne)] at hc
        exact hc rfl
    · have hoff : ¬ s.On s.activeThread t := by
        unfold On
        rw [hth t ht, hact]
        simp [Ne.symm ht]
      have hge : ¬ t < s.created := by
        rw [hcr]
        omega
      refine ⟨⟨none, hl t, .gone (.inr (by rw [hth t ht])) (by rw [hpc t ht]; rfl)⟩,
        by rw [hth t ht]; simp, .inr ⟨?_, by rw [hpc t ht]; rfl⟩, fun h => absurd h hge,
        fun h => absurd h hge, by rw [hpc t ht]; simp, by rw [hpc t ht]; simp, fun hi => absurd hi ht,
        fun c hc hi => ?_, fun _ => ⟨hpc t ht, hl t⟩, fun h => absurd h hoff⟩
      · exact congrArg QueueNode.data (Function.update_of_ne ht (⟨some 0, 0⟩ : QueueNode) (blank n).node)
      · have hi0 : s.idleThread c = 0 := by
          show Function.update (fun _ => 0) 0 0 c = 0
          by_cases hc0 : c = 0 <;> simp [Function.update_apply]
        exact absurd (hi.symm.trans hi0) ht
  · rw [hact] at hc
    split_ifs at hc with hc0
    cases hc
    rw [h0, hcr]
    exact ⟨hc0.symm, Nat.one_pos⟩

/-- Another thread is init, if no thread has exited. -/
theorem Core.setInit (h : s.Core act) (hlt : t < s.created)
    (hrun : ∀ x, x < s.created → s.pc x = .run) : Core { s with initThread := t } act where
  good x := by
    have hx := h.good x
    have hpc : x < s.created → (s.pc x).pushed = false ∧ (s.pc x).inner = false := fun hlt => by
      rw [hrun x hlt]
      exact ⟨rfl, rfl⟩
    refine ⟨hx.place, hx.prio, hx.node, fun hlt hp => ?_, hx.children, hx.emptied, hx.found, ?_,
      hx.idle, hx.fresh, hx.stays⟩
    · rw [(hpc hlt).1] at hp
      cases hp
    · rintro rfl
      exact ⟨(hpc hlt).2, hx.children hlt (by rw [hrun _ hlt]; rfl)⟩
  active := h.active
  init := hlt

theorem schedInit_pc (n t : ℕ) : (schedInit n).pc t = if t < 2 then .run else .exited := by
  show Function.update (Function.update (fun _ => Pc.exited) 0 .run) 1 .run t = _
  by_cases h0 : t = 0
  · subst h0
    simp
  · by_cases h1 : t = 1
    · subst h1
      simp
    · rw [Function.update_of_ne h1, Function.update_of_ne h0, if_neg (by omega)]

theorem Core.schedInit (n : ℕ) : (schedInit n).Core (schedInit n).activeThread := by
  have h := (Core.firstIdle n).createKernelThread (c := 0) (t := 0) rfl rfl kernelHighestPriority 0 6
  refine h.setInit (t := 1) (Nat.lt_succ_self 1) fun x hx => ?_
  have hx' : x < 2 := hx
  exact (schedInit_pc n x).trans (if_pos hx')

end Sched

end RTLKIM

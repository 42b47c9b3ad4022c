import RTLKIM.SchedulerSpec
import RTLKIM.Proofs.SchedStep
import Mathlib.Data.List.Nodup

/-!
# Whole calls keep the tables

With `sched_wait_thread` and `thread_exit` each one step, no thread is ever seen inside them, and
`Core` says where each node is.
-/

namespace RTLKIM

/-- Where a thread is between whole calls. -/
def Pc.settled : Pc → Bool
  | .run | .sched | .waitSched _ | .waitResumed _ | .exited => true
  | _ => false

namespace Sched

variable {s s' : Sched} {t x c now n : ℕ}

def Settled (s : Sched) : Prop := ∀ t, (s.pc t).settled = true

theorem Settled.goto (h : s.Settled) {p : Pc} (hp : p.settled = true) : (s.goto t p).Settled := by
  intro x
  by_cases hx : x = t
  · subst hx
    rw [goto_pc_self]
    exact hp
  · rw [goto_pc_of_ne hx]
    exact h x

/-- The others are settled, and `t` comes to be. -/
theorem settled_of_others (h : ∀ x, x ≠ t → (s.pc x).settled = true)
    (hx : ∀ x, x ≠ t → s'.pc x = s.pc x) (ht : (s'.pc t).settled = true) : s'.Settled := by
  intro x
  by_cases hxt : x = t
  · subst hxt
    exact ht
  · rw [hx x hxt]
    exact h x hxt

/-! ## `sched_wait_thread` -/

theorem Core.schedWaitThread (h : s.Core s.activeThread)
    (hset : ∀ y, y ≠ t → (s.pc y).settled = true)
    (hc : s.activeThread c = some t) (hp : s.pc t = .waitDead x) :
    ∃ s', s.schedWaitThread t x = .ok s' ∧ s'.Core s'.activeThread ∧ s'.Settled := by
  unfold Sched.schedWaitThread
  by_cases hdead : (s.thread x).state = .dead
  · rw [if_pos hdead]
    refine ⟨_, rfl, by rw [waitDead_activeThread]; exact h.waitDead hc hp, ?_⟩
    rw [Sched.waitDead, if_pos hdead]
    exact settled_of_others hset (fun y hy => goto_pc_of_ne hy) (by rw [goto_pc_self]; rfl)
  have e : s.waitDead t x = s.goto t (.waitZombie x) := by rw [Sched.waitDead, if_neg hdead]
  have h₁ : (s.goto t (.waitZombie x)).Core s.activeThread := e ▸ h.waitDead hc hp
  rw [if_neg hdead, e]
  by_cases hzombie : (s.thread x).state = .zombie
  all_goals
    have hzombie' := hzombie
    rw [show (s.thread x).state = ((s.goto t (.waitZombie x)).thread x).state from rfl] at hzombie'
    simp only []
  · rw [if_pos hzombie']
    have e₁ : (s.goto t (.waitZombie x)).waitZombie t x
        = (s.goto t (.waitZombie x)).goto t (.waitMarkDead x) := by
      rw [Sched.waitZombie, if_pos hzombie']
    have h₂ := h₁.waitZombie hc goto_pc_self
    rw [e₁] at h₂ ⊢
    set s₂ := (s.goto t (.waitZombie x)).goto t (.waitMarkDead x) with hs₂
    have h₃ := h₂.waitMarkDead hc goto_pc_self (h₂.gone_iff.2 (.inl hzombie))
    have hp₃ : (s₂.waitMarkDead t x).pc t = .waitClean x := goto_pc_self
    unfold Sched.waitClean
    obtain ⟨s', hs', h₄⟩ := h₃.cleaned (x := x) hc (by rw [hp₃]; rfl) (by rw [hp₃]; rfl)
      (by rw [hp₃]; simp) ⟨.noErr, some ((s₂.waitMarkDead t x).thread x).retVal, none⟩
    rcases hcl : (s₂.waitMarkDead t x).cleanJoinedThread t x with _ | s₅
    · rw [hcl] at hs'
      cases hs'
    · rw [hcl] at hs'
      cases hs'
      have hact := cleanJoinedThread_activeThread hcl
      have hpc := cleanJoinedThread_pc hcl
      refine ⟨_, rfl, ?_, settled_of_others hset (fun y hy => ?_) (by rw [goto_pc_self]; rfl)⟩
      · show Core _ s₅.activeThread
        rw [hact]
        exact h₄
      · rw [goto_pc_of_ne hy]
        show s₅.pc y = _
        rw [hpc]
        exact (goto_pc_of_ne hy).trans ((goto_pc_of_ne hy).trans (goto_pc_of_ne hy))
  · rw [if_neg hzombie']
    have e₁ : (s.goto t (.waitZombie x)).waitZombie t x
        = (s.goto t (.waitZombie x)).goto t (.waitJoining x) := by
      rw [Sched.waitZombie, if_neg hzombie']
    have h₂ := h₁.waitZombie hc goto_pc_self
    rw [e₁] at h₂ ⊢
    have h₃ := h₂.waitJoining hc goto_pc_self
    have h₄ := h₃.waitRecord (t := t) (x := x) goto_pc_self fun i hi => ?_
    · refine ⟨_, rfl, h₄, settled_of_others hset (fun y hy => ?_)
        (by rw [Sched.waitRecord, goto_pc_self]; rfl)⟩
      exact (goto_pc_of_ne hy).trans ((goto_pc_of_ne hy).trans ((goto_pc_of_ne hy).trans
        (goto_pc_of_ne hy)))
    · by_cases hxt : x = t
      · subst hxt
        rw [Sched.waitJoining, goto_pc_self] at hi
        cases hi
      · rw [Sched.waitJoining, goto_pc_of_ne hxt] at hi
        have := hset x hxt
        rw [show s.pc x = .exitWake (some i) from
          ((goto_pc_of_ne hxt).trans (goto_pc_of_ne hxt)).symm.trans hi] at this
        cases this

/-! ## `thread_exit` -/

/-- The loop over the children ends: each round hands one over. -/
theorem Core.exitAllChildren : ∀ (k : ℕ) {s : Sched}, s.Core s.activeThread →
    s.activeThread c = some t → s.pc t = .exitChildren →
    (∀ l, (s.thread t).children = some l → l.length < k) →
    exitAllChildren t k s = .error .nullDeref ∨ ∃ s', exitAllChildren t k s = .ok s'
      ∧ s'.Core s'.activeThread ∧ s'.pc t = .exitDelete ∧ s'.activeThread = s.activeThread
      ∧ ∀ x, x ≠ t → s'.pc x = s.pc x
  | 0, s, h, hc, hp, hk => by
    obtain ⟨l, hl⟩ := Option.ne_none_iff_exists'.1
      ((h.good t).children (h.active c t hc).2 (by rw [hp]; rfl))
    exact absurd (hk l hl) (Nat.not_lt_zero _)
  | k + 1, s, h, hc, hp, hk => by
    have hinit : t ≠ s.initThread := by
      intro hi
      have := ((h.good t).init hi).1
      simp [hp, Pc.inner] at this
    unfold Sched.exitAllChildren
    rcases h.exitChildren hc hp with hr | ⟨s₁, hr, h₁⟩
    · rw [hr]
      exact .inl rfl
    rw [hr]
    have hact := exitChildren_activeThread hr
    have h₁' : s₁.Core s₁.activeThread := by rwa [hact]
    rcases exitChildren_cases hr with ⟨-, rfl⟩ | ⟨x, l, ha⟩
    · right
      refine ⟨_, ?_, h₁', goto_pc_self, rfl, fun x hx => goto_pc_of_ne hx⟩
      show (if (s.goto t .exitDelete).pc t = .exitChildren then _ else _) = _
      rw [goto_pc_self, if_neg (by simp)]
    · have hlen : ∀ l', (s₁.thread t).children = some l' → l'.length < k := by
        intro l' hl'
        rw [ha.left hinit, Option.some_inj] at hl'
        have hk' := hk l ha.from_
        have hne : l ≠ [] := by
          rintro rfl
          cases ha.last
        have := List.length_pos_of_ne_nil hne
        rw [← hl', List.length_dropLast]
        omega
      have hp₁ : s₁.pc t = .exitChildren := by rw [ha.pc, hp]
      have hstep : (do let s ← (Except.ok s₁ : Except Halt Sched)
                       if s.pc t = .exitChildren then Sched.exitAllChildren t k s else .ok s)
          = Sched.exitAllChildren t k s₁ := by
        show (if s₁.pc t = .exitChildren then _ else _) = _
        rw [if_pos hp₁]
      rw [hstep]
      rcases Core.exitAllChildren k h₁' (by rw [hact]; exact hc) hp₁ hlen with
        hr' | ⟨s', hr', h', hp', hact', hx⟩
      · exact .inl hr'
      · exact .inr ⟨s', hr', h', hp', hact'.trans hact, fun x hxt => (hx x hxt).trans (by rw [ha.pc])⟩

theorem exitDelete_pc (h : s.exitDelete t = .ok s') (hx : x ≠ t) : s'.pc x = s.pc x := by
  unfold Sched.exitDelete at h
  split_ifs at h
  cases h
  exact goto_pc_of_ne hx

theorem exitWake_pc {j : Option ℕ} (h : s.exitWake t j = .ok s') (hx : x ≠ t) :
    s'.pc x = s.pc x := by
  rcases j with _ | j
  · cases h
    exact goto_pc_of_ne hx
  · simp only [Sched.exitWake] at h
    split_ifs at h
    · split at h
      · cases h
      · cases h
        exact goto_pc_of_ne hx
    · cases h
      exact goto_pc_of_ne hx

theorem Core.threadExit (h : s.Core s.activeThread) (hset : ∀ y, y ≠ t → (s.pc y).settled = true)
    (hc : s.activeThread c = some t) (hp : s.pc t = .exitZombie) :
    s.threadExit c now t = .error .nullDeref
      ∨ ∃ s', s.threadExit c now t = .ok s' ∧ s'.Core s'.activeThread ∧ s'.Settled := by
  -- the switch that ends it
  have hend : ∀ {s₁ : Sched}, s₁.Core s₁.activeThread → s₁.activeThread = s.activeThread →
      s₁.pc t = .exitSched → (∀ x, x ≠ t → s₁.pc x = s.pc x) →
      ∃ s', (s₁.goto t .exited).selectThread c now = .ok s' ∧ s'.Core s'.activeThread ∧ s'.Settled := by
    intro s₁ h₁ hact hp₁ hx
    obtain ⟨s', n, hr, h', hsw⟩ := h₁.selectThread now (by rw [hact]; exact hc)
      (show Leaves (s₁.pc t) .exited by rw [hp₁]; exact .exit)
    refine ⟨s', hr, h', settled_of_others hset (fun x hxt => ?_) ?_⟩
    · exact (congrFun hsw.shuffle.pc x).trans ((goto_pc_of_ne hxt).trans (hx x hxt))
    · have : s'.pc t = .exited := (congrFun hsw.shuffle.pc t).trans goto_pc_self
      rw [this]
      rfl
  have h₁ : (s.exitZombie t).Core s.activeThread := h.exitZombie hc hp
  have h₂ : ((s.exitZombie t).exitTestInit t).Core s.activeThread :=
    h₁.exitTestInit hc goto_pc_self
  have hx₂ : ∀ x, x ≠ t → ((s.exitZombie t).exitTestInit t).pc x = s.pc x := fun x hx =>
    (goto_pc_of_ne hx).trans (goto_pc_of_ne hx)
  have hp₂ : ((s.exitZombie t).exitTestInit t).pc t
      = if t = s.initThread then .exitSched else .exitEnter := goto_pc_self
  unfold Sched.threadExit
  have hi : ((s.exitZombie t).exitTestInit t).initThread = s.initThread := rfl
  simp only [hi]
  split_ifs with hinit
  · rw [if_pos hinit] at hp₂
    exact .inr (hend h₂ rfl hp₂ hx₂)
  rw [if_neg hinit] at hp₂
  set s₂ := (s.exitZombie t).exitTestInit t with hs₂
  have h₃ : (s₂.goto t .exitPush).Core s.activeThread := h₂.exitEnter hc hp₂
  have h₄ : ((s₂.goto t .exitPush).exitPush t).Core s.activeThread := h₃.exitPush hc goto_pc_self
  set s₄ := (s₂.goto t .exitPush).exitPush t with hs₄
  have hx₄ : ∀ x, x ≠ t → s₄.pc x = s.pc x := fun x hx =>
    (goto_pc_of_ne hx).trans ((goto_pc_of_ne hx).trans (hx₂ x hx))
  have hlen : ∀ l, (s₄.thread t).children = some l →
      l.length < (s₄.thread t).children.elim 0 List.length + 1 := by
    intro l hl
    rw [hl]
    exact Nat.lt_succ_self _
  rcases Core.exitAllChildren _ (s := s₄) h₄ hc goto_pc_self hlen with hr | ⟨s₅, hr, h₅, hp₅, hact₅, hx₅⟩
  · rw [hr]
    exact .inl rfl
  have hc₅ : s₅.activeThread c = some t := by
    rw [hact₅]
    exact hc
  obtain ⟨s₆, hr₆, h₆, hp₆, hact₆⟩ := h₅.exitDelete hc₅ hp₅
  have h₇ := h₆.exitSearch hc₅ hp₆
  have hp₇ : (s₆.exitSearch t).pc t
      = .exitWake ((s₆.thread t).joiningThread.bind fun j => (s₆.node j).data) := goto_pc_self
  obtain ⟨s₈, hr₈, h₈, hp₈, hact₈⟩ := h₇.exitWake hc₅ hp₇
  have hact : s₈.activeThread = s.activeThread := hact₈.trans (hact₆.trans hact₅)
  rw [hact₅, show s₄.activeThread = s.activeThread from rfl, ← hact] at h₈
  have h₉ : (s₈.goto t .exitSched).Core s₈.activeThread :=
    h₈.exitLeave (by rw [hact]; exact hc) hp₈
  have hx₈ : ∀ x, x ≠ t → s₈.pc x = s.pc x := by
    intro x hx
    rw [exitWake_pc hr₈ hx]
    refine (goto_pc_of_ne hx).trans ?_
    rw [exitDelete_pc hr₆ hx, hx₅ x hx, hx₄ x hx]
  obtain ⟨s', hr', h'⟩ := hend h₉ hact goto_pc_self fun x hx => (goto_pc_of_ne hx).trans (hx₈ x hx)
  refine .inr ⟨s', ?_, h'⟩
  rw [hr]
  show (s₅.exitDelete t >>= _) = _
  rw [hr₆]
  show ((s₆.exitSearch t).exitWake t _ >>= _) = _
  rw [hr₈]
  exact hr'

/-! ## Steps -/

theorem Settled.of_pc (h : s.Settled) {p : Pc} (hp : p.settled = true)
    (hpc : s'.pc = Function.update s.pc t p) : s'.Settled := by
  intro x
  rw [hpc]
  exact h.goto hp x

theorem Settled.createKernelThread (h : s.Settled) (k a m : ℕ) :
    (s.createKernelThread t k a m).Settled := by
  unfold Sched.createKernelThread
  split_ifs
  · exact h
  · exact h
  · exact h
  · exact h
  · exact h.of_pc (t := s.created) (p := .run) rfl rfl

/-- The calls that are one statement. -/
theorem Settled.perform (h : s.Settled) {k : SchedCall} (hw : ∀ x, k ≠ .wait (some x))
    (he : ∀ r, k ≠ .exit r) (hr : s.perform c now t k = .ok s') : s'.Settled := by
  cases k with
  | create k a m =>
    cases hr
    exact h.createKernelThread k a m
  | sleep ms =>
    cases hr
    exact h.of_pc (t := t) (p := .sched) rfl rfl
  | lock type object =>
    cases hr
    exact h.of_pc (t := t) (p := .sched) rfl rfl
  | unlock type object d =>
    simp only [Sched.perform, Sched.unlock] at hr
    split at hr
    · cases hr
      exact h
    · split at hr
      · cases hr
      · split_ifs at hr
        · cases hr
          exact h.of_pc (t := t) (p := .sched) rfl rfl
        · cases hr
          exact h.of_pc (t := t) (p := .run) rfl rfl
  | setPriority k =>
    cases hr
    unfold Sched.setPriority
    split_ifs
    · exact h
    · exact h
  | setCause cause =>
    cases hr
    exact h
  | schedule =>
    cases hr
    exact h.goto rfl
  | wait target =>
    rcases target with _ | x
    · cases hr
      exact h
    · exact absurd rfl (hw x)
  | exit ret => exact absurd rfl (he ret)

theorem Core.performWhole (h : s.Core s.activeThread) (hset : s.Settled)
    (hc : s.activeThread c = some t) (hne : t ≠ s.idleThread c) (hp : s.pc t = .run) (k : SchedCall) :
    s.performWhole c now t k = .error .nullDeref
      ∨ ∃ s', s.performWhole c now t k = .ok s' ∧ s'.Core s'.activeThread ∧ s'.Settled := by
  obtain ⟨s', hr, h'⟩ : ∃ s', s.perform c now t k = .ok s' ∧ s'.Core s'.activeThread :=
    h.perform hc hne hp k
  have hother : (∀ x, k ≠ .wait (some x)) → (∀ r, k ≠ .exit r) →
      s.performWhole c now t k = s.perform c now t k →
      ∃ s', s.performWhole c now t k = .ok s' ∧ s'.Core s'.activeThread ∧ s'.Settled :=
    fun hw he hk => ⟨s', hk.trans hr, h', hset.perform hw he hr⟩
  cases k with
  | create | sleep | lock | unlock | setPriority | setCause | schedule =>
    exact .inr (hother (by simp) (by simp) rfl)
  | wait target =>
    rcases target with _ | x
    · exact .inr (hother (by simp) (by simp) rfl)
    · cases hr
      exact .inr (h'.schedWaitThread (fun y hy => by rw [goto_pc_of_ne hy]; exact hset y) hc
        goto_pc_self)
  | exit ret =>
    cases hr
    refine h'.threadExit (fun y hy => ?_) hc goto_pc_self
    rw [show (s.enterExit t ret).pc y = s.pc y from goto_pc_of_ne hy]
    exact hset y

/-- A step panics nowhere, and ends with every thread in its place or at a `NULL`. -/
theorem Core.execWhole (h : s.Core s.activeThread) (hset : s.Settled) {e : SchedEv}
    (he : s.Enabled e) : s.execWhole e = .error .nullDeref
      ∨ ∃ s', s.execWhole e = .ok s' ∧ s'.Core s'.activeThread ∧ s'.Settled := by
  cases e with
  | initAp c =>
    exact .inr ⟨_, rfl, h.createIdle he.2, hset.of_pc (t := s.created) (p := .run) rfl rfl⟩
  | call c now k =>
    obtain ⟨t, hc, hk⟩ := he
    have hc' : s.activeThread c = some t := hc
    show (s.activeThread c).elim _ _ = _ ∨ ∃ s', (s.activeThread c).elim _ _ = _ ∧ _
    rw [hc']
    exact h.performWhole hset hc' hk.caller.1 hk.caller.2 k
  | stmt c now =>
    obtain ⟨t, hc, hp⟩ := he
    have hc' : s.activeThread c = some t := hc
    show (s.activeThread c).elim _ _ = _ ∨ ∃ s', (s.activeThread c).elim _ _ = _ ∧ _
    rw [hc']
    show s.stmt c now t = _ ∨ ∃ s', s.stmt c now t = _ ∧ _
    have hs := hset t
    have hsound : s.Sound := ⟨h, fun y x hy => by have := hset y; simp [hy, Pc.settled] at this⟩
    have hswitch : ∀ p, Leaves (s.pc t) p → p.settled = true →
        s.stmt c now t = (s.goto t p).selectThread c now →
        ∃ s', s.stmt c now t = .ok s' ∧ s'.Core s'.activeThread ∧ s'.Settled := by
      intro p hl hps hst
      obtain ⟨s', n, hr, h', hsw⟩ := h.selectThread now hc' hl
      refine ⟨s', hst.trans hr, h', fun x => ?_⟩
      have := hset.goto (t := t) hps x
      rwa [← congrFun hsw.shuffle.pc x] at this
    cases hpc : s.pc t with
    | run => exact absurd hpc hp
    | sched => exact .inr (hswitch .run (by rw [hpc]; exact .sched) rfl (by rw [Sched.stmt, hpc]))
    | waitSched x =>
      exact .inr (hswitch (.waitResumed x) (by rw [hpc]; exact .wait x) rfl (by rw [Sched.stmt, hpc]))
    | exited => exact absurd hpc ((h.good t).stays (h.on hc'))
    | waitResumed x =>
      rcases hsound.stmt now hc' (fun y i hy => by rw [hpc] at hy; cases hy) with hr | ⟨s', hr, h'⟩
      · exact .inl hr
      · refine .inr ⟨s', hr, h', ?_⟩
        simp only [Sched.stmt, hpc, Sched.waitResumed] at hr
        rcases hcl : s.cleanJoinedThread t x with _ | s₁
        · rw [hcl] at hr
          cases hr
        · rw [hcl] at hr
          cases hr
          refine hset.of_pc (t := t) (p := .run) rfl ?_
          show Function.update s₁.pc t .run = _
          rw [cleanJoinedThread_pc hcl]
    | waitDead | waitZombie | waitMarkDead | waitClean | waitJoining | waitRecord | exitZombie
    | exitTestInit | exitEnter | exitPush | exitChildren | exitDelete | exitSearch | exitWake
    | exitLeave | exitSched =>
      rw [hpc] at hs
      cases hs
  | timer c now =>
    obtain ⟨t, hc, -⟩ := he
    obtain ⟨s', n, hr, h', hsw⟩ := h.timer hc
    refine .inr ⟨s', hr, h', fun x => ?_⟩
    rw [congrFun hsw.shuffle.pc x]
    exact hset x

/-! ## Runs -/

/-- What `Core` says when no thread is inside a call. -/
theorem Core.partition (h : s.Core s.activeThread) (hset : s.Settled) : s.Partition where
  once t _ q q' hq hq' := by
    obtain ⟨loc, hl, -⟩ := (h.good t).place
    exact Option.some_inj.1 ((hl.eq_of_mem hq).symm.trans (hl.eq_of_mem hq'))
  nodup q := by
    rw [List.nodup_iff_count_le_one]
    intro t
    obtain ⟨loc, hl, -⟩ := (h.good t).place
    rw [hl q]
    split_ifs <;> omega
  ready t _ hst := by
    obtain ⟨loc, hl, hsit⟩ := (h.good t).place
    cases hsit with
    | running h1 | drowsy h1 | sleeping h1 | waiting _ h1 | joining h1 => simp [h1] at hst
    | gone h1 | zombie h1 => simp [hst] at h1
    | ready => exact hl.mem_iff.2 rfl
  sleeping t _ hst hoff := by
    obtain ⟨loc, hl, hsit⟩ := (h.good t).place
    cases hsit with
    | running h1 | ready h1 | waiting _ h1 | joining h1 => simp [h1] at hst
    | gone h1 | zombie h1 => simp [hst] at h1
    | drowsy _ ho => exact absurd ho (hoff _)
    | sleeping => exact hl.mem_iff.2 rfl
  waiting t _ hst := by
    obtain ⟨loc, hl, hsit⟩ := (h.good t).place
    cases hsit with
    | running h1 | ready h1 | drowsy h1 | sleeping h1 | joining h1 => simp [h1] at hst
    | gone h1 | zombie h1 => simp [hst] at h1
    | waiting object => exact ⟨_, object, hl.mem_iff.2 rfl,
        fun q hq => (Option.some_inj.1 (hl.eq_of_mem hq)).symm⟩
  zombie t hlt hst hi hf := by
    have hg := h.gone_iff.2 (.inl hst)
    refine (h.good t).zombies hlt ?_ hi hf
    have := hset t
    cases hp : s.pc t <;> simp_all [Pc.gone, Pc.settled, Pc.pushed]
  unlinked t _ hst q hq := by
    obtain ⟨loc, hl, hsit⟩ := (h.good t).place
    cases hsit with
    | running | joining => exact hl.not_mem q hq
    | ready h1 | sleeping h1 | waiting _ h1 | drowsy h1 => simp [h1] at hst
    | gone h1 | zombie h1 => rcases hst with h2 | h2 <;> simp [h2] at h1
  idle c hc := by
    obtain ⟨h1, h2, -, h4⟩ := (h.good (s.idleThread c)).idle c hc rfl
    obtain ⟨loc, hl, hsit⟩ := (h.good (s.idleThread c)).place
    cases hsit with
    | running _ ho =>
      unfold On at ho
      rw [h2] at ho
      exact .inl ho
    | ready hs => exact .inr ⟨hs, hl.mem_iff.2 (by rw [h2])⟩
    | drowsy hs | sleeping hs | waiting _ hs | joining hs => simp [hs] at h4
    | gone _ hg => simp [h1, Pc.gone] at hg
    | zombie _ hg => simp [h1, Pc.pushed] at hg

theorem Settled.schedInit (n : ℕ) : (schedInit n).Settled := by
  intro t
  rw [schedInit_pc]
  split_ifs <;> rfl

theorem whole_of_reach (h : Reach stepWhole anyStep (schedInit n) s) :
    s.Core s.activeThread ∧ s.Settled := by
  refine h.invariant (P := fun s => s.Core s.activeThread ∧ s.Settled)
    ⟨.schedInit n, .schedInit n⟩ ?_
  rintro s e s' ⟨hcore, hset⟩ - hstep
  unfold stepWhole at hstep
  split_ifs at hstep with he
  rcases hcore.execWhole hset he with hr | ⟨s₁, hr, h₁⟩
  · rw [hr] at hstep
    cases hstep
  · rw [hr] at hstep
    cases hstep
    exact h₁

/-- In every run of whole calls each node is where its thread's state says, and no call panics. -/
theorem run_partition (h : Reach stepWhole anyStep (schedInit n) s) :
    s.Partition ∧ ∀ e, s.Enabled e → s.execWhole e ≠ .error .panic := by
  obtain ⟨hcore, hset⟩ := whole_of_reach h
  refine ⟨hcore.partition hset, fun e he hp => ?_⟩
  rcases hcore.execWhole hset he with hr | ⟨s', hr, -⟩
  · rw [hp] at hr
    cases hr
  · rw [hp] at hr
    cases hr

/-- Init creates a thread on another CPU and joins it, and that thread waits for a mutex. -/
theorem run_partition_two_cpus : ∃ s : Sched, Reach stepWhole anyStep (schedInit 2) s
    ∧ (s.thread 1).state = .joining ∧ (s.thread 2).state = .waiting
    ∧ s.Partition ∧ ∀ e, s.Enabled e → s.execWhole e ≠ .error .panic := by
  have hrun : ((runEvents (guarded stepWhole anyStep) (schedInit 2)
      [.timer 0 0, .call 0 0 (.create 0 1 6), .initAp 1, .timer 1 0, .call 0 0 (.wait (some 2)),
        .stmt 0 0, .call 1 0 (.lock .mutex 7), .stmt 1 0]).map fun s =>
      ((s.thread 1).state, (s.thread 2).state)) = some (.joining, .waiting) := by decide +kernel
  obtain ⟨s, h, hs⟩ := Option.map_eq_some_iff.1 hrun
  obtain ⟨h1, h2⟩ := Prod.mk.inj hs
  exact ⟨s, .of_run h, h1, h2, run_partition (.of_run h)⟩

end Sched

end RTLKIM

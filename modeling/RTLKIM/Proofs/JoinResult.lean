import RTLKIM.JoinResult
import RTLKIM.Proofs.SchedReclaim
import RTLKIM.Proofs.ThreadRefs

/-!
# The result of a join

A thread that nobody else waits for is reclaimed once, by the thread that does. What it returned and
why it terminated stay what they were at its exit. Of the two ends of `sched_wait_thread` the one
past its `sched_schedule` stores both.
-/

namespace RTLKIM

namespace JoinView

/-- A thread is marked dead by one that is to reclaim it. -/
theorem Move.dead {v v' : JoinView} {l : Label} {x : ℕ} (hm : v.Move l v') (hx : x < v'.created)
    (hd : v'.state x = .dead) : x < v.created ∧ v.state x = .dead ∨ ∃ t, v'.pc t = .waitClean x := by
  have hupd : ∀ {y : ℕ} {a : ThreadState}, a ≠ .dead →
      Function.update v.state y a x = .dead → v.state x = .dead := by
    intro y a ha h
    by_cases hxy : x = y
    · rw [hxy, Function.update_self] at h
      exact absurd h ha
    · rwa [Function.update_of_ne hxy] at h
  cases hm with
  | call t p st hp hq hst => exact .inl ⟨hx, hst.dead hd⟩
  | born st act hst =>
    have hst' : st ≠ .dead := by
      rcases hst with rfl | rfl <;> simp
    have hne : x ≠ v.created := by
      rintro rfl
      exact hst' ((Function.update_self _ _ _).symm.trans hd)
    exact .inl ⟨lt_of_le_of_ne (Nat.lt_succ_iff.1 hx) hne, hupd hst' hd⟩
  | switch l c t p n st hc hl hcr hwho hlab hst hn => exact .inl ⟨hx, hst.dead hd⟩
  | goes | records => exact .inl ⟨hx, hd⟩
  | marks c t y hc hp =>
    have hd' : Function.update v.state y .dead x = .dead := hd
    by_cases hxy : x = y
    · subst hxy
      exact .inr ⟨t, Function.update_self _ _ _⟩
    · rw [Function.update_of_ne hxy] at hd'
      exact .inl ⟨hx, hd'⟩
  | joins | exits | wakes => exact .inl ⟨hx, hupd (by simp) hd⟩

end JoinView

/-- What a thread that waits for this one is to be told. -/
def Thread.result (T : Thread) : ℕ × TerminateCause := (T.retVal, T.returnCause)

namespace Sched

variable {s s' : Sched} {e : SchedEv} {c now t x y j : ℕ} {f : Thread → Thread} {p : Pc}

/-! ## What threads terminate with -/

theorem setThread_result (hf : ∀ T, (f T).result = T.result) :
    ((s.setThread t f).thread x).result = (s.thread x).result := setThread_proj Thread.result hf x

theorem setState_result (st : ThreadState) :
    ((s.setState t st).thread x).result = (s.thread x).result := setThread_result fun _ => rfl

theorem newThread_result (T : Thread) (hx : x < s.created) :
    ((s.newThread T).thread x).result = (s.thread x).result :=
  congrArg Thread.result (Function.update_of_ne hx.ne _ _)

theorem requeue_result : ((s.requeue c t).thread x).result = (s.thread x).result := by
  unfold Sched.requeue
  split_ifs
  · exact setState_result .ready
  · rfl
  · rfl

theorem wake_result (now k : ℕ) (s : Sched) :
    ((wake c now k s).thread x).result = (s.thread x).result := by
  refine wake_rule (P := fun s' => (s'.thread x).result = (s.thread x).result) ?_ ?_ ?_ k rfl
  · exact fun _ _ h _ _ => h
  · exact fun s₁ _ _ h _ _ => (setState_result (s := s₁.popped (.sleeping c)) .ready).trans h
  · exact fun _ _ _ h _ _ => h

theorem selectThread_result (h : s.selectThread c now = .ok s') :
    (s'.thread x).result = (s.thread x).result := by
  unfold Sched.selectThread at h
  split at h
  · cases h
  · unfold Sched.elect at h
    dsimp only at h
    split at h
    · cases h
    · split at h
      · cases h
      · cases h
        refine (setState_result (s := Sched.popped _ _) .running).trans ?_
        exact (wake_result now _ _).trans requeue_result

/-- A call of another thread. -/
theorem perform_result {k : SchedCall} (h : s.perform c now t k = .ok s') (hx : x < s.created)
    (hne : x ≠ t) : (s'.thread x).result = (s.thread x).result := by
  have hother : ∀ T, (Function.update s.thread t T x).result = (s.thread x).result :=
    fun _ => congrArg Thread.result (Function.update_of_ne hne _ _)
  cases k with
  | create k a m =>
    cases h
    unfold Sched.createKernelThread
    split_ifs
    · rfl
    · rfl
    · rfl
    · rfl
    · refine (newThread_result (s := s.setThread t fun T =>
        { T with children := T.children.map (s.created :: ·) }) _ hx).trans ?_
      exact hother _
  | unlock type object d =>
    simp only [Sched.perform, Sched.unlock] at h
    split at h
    · cases h
      rfl
    · split at h
      · cases h
      · split_ifs at h
        all_goals
          cases h
          exact setState_result (s := s.popped (.waiting type object)) .ready
  | setPriority k =>
    cases h
    unfold Sched.setPriority
    split_ifs
    · rfl
    · exact hother _
  | sleep ms | lock type object | setCause cause | exit ret =>
    cases h
    exact hother _
  | schedule =>
    cases h
    rfl
  | wait target =>
    rcases target with _ | y <;> cases h <;> rfl

theorem cleanJoinedThread_result (h : s.cleanJoinedThread t y = .ok s') :
    (s'.thread x).result = (s.thread x).result ∧ s'.freed y = true := by
  unfold Sched.cleanJoinedThread at h
  split at h
  · cases h
  · rename_i l _
    cases h
    exact ⟨setThread_result (s := s) (t := t) (f := fun T =>
      { T with children := some (l.erase y) }) fun _ => rfl, Function.update_self _ _ _⟩

/-- An end of `sched_wait_thread`. -/
theorem cleaned_result {r : CallRet} (h : (s.cleanJoinedThread t y).map
    (fun s' => (s'.returns t r).goto t .run) = .ok s') :
    (s'.thread x).result = (s.thread x).result ∧ s'.ret t = r ∧ s'.freed y = true := by
  rcases hcl : s.cleanJoinedThread t y with _ | s₁
  · rw [hcl] at h
    cases h
  · rw [hcl] at h
    cases h
    obtain ⟨hres, hf⟩ := cleanJoinedThread_result (x := x) hcl
    exact ⟨hres, Function.update_self _ _ _, hf⟩

theorem adopt_result (h : s.adopt t y = .ok s') : (s'.thread x).result = (s.thread x).result := by
  unfold Sched.adopt at h
  dsimp only at h
  split at h
  · cases h
  · split at h
    · cases h
    · rename_i l _
      cases h
      refine (setThread_result (f := fun T => { T with children := some (y :: l) })
        fun _ => rfl).trans ?_
      have hptid : ((s.setThread y fun T =>
          { T with ptid := (s.thread s.initThread).tid }).thread x).result = (s.thread x).result :=
        setThread_result fun _ => rfl
      split_ifs
      · exact hptid
      · exact hptid

theorem exitChildren_result (h : s.exitChildren t = .ok s') :
    (s'.thread x).result = (s.thread x).result := by
  unfold Sched.exitChildren at h
  split at h
  · cases h
  · rename_i l _
    split at h
    · cases h
      rfl
    · exact (adopt_result h).trans
        (setThread_result (f := fun T => { T with children := some l.dropLast }) fun _ => rfl)

theorem exitWake_result {r : Option ℕ} (h : s.exitWake t r = .ok s') :
    (s'.thread x).result = (s.thread x).result := by
  rcases r with _ | r
  · cases h
    rfl
  · simp only [Sched.exitWake] at h
    split_ifs at h
    · split at h
      · cases h
      · cases h
        exact setState_result .ready
    · cases h
      rfl

theorem stmt_result (h : s.stmt c now t = .ok s') : (s'.thread x).result = (s.thread x).result := by
  unfold Sched.stmt at h
  cases hpc : s.pc t with
  | sched | waitSched | exitSched =>
    simp only [hpc] at h
    have hsel := selectThread_result (x := x) h
    exact hsel
  | waitClean y | waitResumed y =>
    simp only [hpc] at h
    exact (cleaned_result h).1
  | exitChildren =>
    simp only [hpc] at h
    exact exitChildren_result h
  | exitWake r =>
    simp only [hpc] at h
    exact exitWake_result h
  | exitDelete =>
    simp only [hpc, Sched.exitDelete] at h
    split_ifs at h
    cases h
    exact setThread_result (s := s) (t := t) (f := fun T => { T with children := none }) fun _ => rfl
  | exited =>
    simp only [hpc] at h
    cases h
  | waitDead y =>
    simp only [hpc] at h
    cases h
    unfold Sched.waitDead
    split_ifs <;> rfl
  | waitZombie y =>
    simp only [hpc] at h
    cases h
    unfold Sched.waitZombie
    split_ifs <;> rfl
  | waitMarkDead y =>
    simp only [hpc] at h
    cases h
    exact setState_result .dead
  | waitJoining y =>
    simp only [hpc] at h
    cases h
    exact setState_result .joining
  | exitZombie =>
    simp only [hpc] at h
    cases h
    exact setState_result .zombie
  | waitRecord y =>
    simp only [hpc] at h
    cases h
    exact setThread_result (s := s) (t := y) (f := fun T => { T with joiningThread := some t })
      fun _ => rfl
  | run | exitTestInit | exitPush | exitEnter | exitSearch | exitLeave =>
    simp only [hpc] at h
    cases h
    rfl

/-- A thread that has begun to exit terminates with what it has. -/
theorem step_result (hs : s.step e = some s') (hx : x < s.created) (hg : (s.pc x).gone = true) :
    (s'.thread x).result = (s.thread x).result := by
  cases step_spec hs with
  | initAp c => exact newThread_result _ hx
  | call c now t k _ hc hk hr =>
    refine perform_result hr hx ?_
    rintro rfl
    rw [hk.caller.2] at hg
    cases hg
  | stmt c now t _ hc _ hr => exact stmt_result hr
  | timer c now t _ hc _ hr => exact selectThread_result hr

/-! ## One thread waits for another -/

/-- Each thread is waited for by one at most, and is not reclaimed while it is; a thread about to be
reclaimed has exited, and one marked dead is about to be or has been. -/
structure Waited (s : Sched) : Prop where
  one : ∀ j j' x, (s.pc j).target = some x → (s.pc j').target = some x → j = j'
  live : ∀ j x, (s.pc j).target = some x → s.freed x = false
  exited : ∀ j x, s.pc j = .waitClean x → (s.pc x).gone = true
  dead : ∀ x, x < s.created → (s.thread x).state = .dead →
    s.freed x = true ∨ ∃ j, s.pc j = .waitClean x

/-- The targets that a step gives. -/
theorem Core.step_target (h : s.Core s.activeThread) (hok : s.WaitsAlone e)
    (hs : s.step e = some s') : ∃ t p, s'.pc = Function.update s.pc t p
      ∧ ∀ x, p.target = some x → (s.pc t).target = some x
        ∨ s.freed x = false ∧ ∀ i, (s.pc i).target ≠ some x := by
  have hsame : s'.pc = s.pc → ∃ t p, s'.pc = Function.update s.pc t p
      ∧ ∀ x, p.target = some x → (s.pc t).target = some x
        ∨ s.freed x = false ∧ ∀ i, (s.pc i).target ≠ some x := fun hpc =>
    ⟨0, s.pc 0, by rw [hpc, Function.update_eq_self], fun _ hx => .inl hx⟩
  cases step_refs hs with
  | same _ hpc | spent _ _ hpc => exact hsame hpc
  | adopt _ _ _ _ _ _ _ _ _ _ _ hpc => exact hsame hpc
  | goes t p hg _ hpc =>
    refine ⟨t, p, hpc, fun x hx => (hg.target x hx).imp_right ?_⟩
    rintro ⟨-, c, now, rfl⟩
    obtain ⟨hf, hone⟩ := hok
    refine ⟨hf, fun i hi => ?_⟩
    have hlt := h.lt_created (t := i) (by rintro hp; simp [hp, Pc.target] at hi)
    exact hone i hlt hi
  | idle | create => exact ⟨s.created, .run, ‹_›, by simp [Pc.target]⟩
  | record t x hp _ hpc => exact ⟨t, _, hpc, fun y hy => .inl (by rw [hp]; exact hy)⟩
  | clean _ _ t _ _ _ _ _ _ _ hpc => exact ⟨t, .run, hpc, by simp [Pc.target]⟩
  | push t _ _ hpc | delete t _ _ hpc => exact ⟨t, _, hpc, by simp [Pc.target]⟩

/-- A step reclaims a thread at an end of `sched_wait_thread`, or none. -/
theorem step_freed (hs : s.step e = some s') : s'.freed = s.freed
    ∨ ∃ c now t x, e = .stmt c now ∧ s.activeThread c = some t
      ∧ (s.pc t = .waitClean x ∨ s.pc t = .waitResumed x)
      ∧ s'.freed = Function.update s.freed x true ∧ s'.pc = Function.update s.pc t .run := by
  cases step_refs hs with
  | clean c now t x l he hc hp _ hv hpc =>
    exact .inr ⟨c, now, t, x, he, hc, hp, congrArg RefView.freed hv, hpc⟩
  | same hv | goes _ _ _ hv | spent _ hv | idle _ _ hv | create _ _ hv | record _ _ _ hv
  | push _ _ hv | delete _ _ hv => exact .inl (congrArg RefView.freed hv)
  | adopt _ _ _ _ _ _ _ _ _ _ hv => exact .inl (congrArg RefView.freed hv)

/-- A thread about to reclaim another does so before it goes on. -/
theorem Core.step_clean (h : s.Core s.activeThread) (hs : s.step e = some s')
    (hj : s.pc j = .waitClean x) : s'.pc j = .waitClean x ∨ s'.freed x = true := by
  have hother : ∀ t p, s'.pc = Function.update s.pc t p → j ≠ t → s'.pc j = .waitClean x :=
    fun t p hpc hjt => by rw [hpc, Function.update_of_ne hjt, hj]
  cases step_refs hs with
  | same _ hpc | spent _ _ hpc => exact .inl (by rw [hpc, hj])
  | adopt _ _ _ _ _ _ _ _ _ _ _ hpc => exact .inl (by rw [hpc, hj])
  | goes t p hg _ hpc => exact .inl (hother t p hpc fun he => (hg.back x).2 (he ▸ hj))
  | idle _ _ _ hpc | create _ _ _ hpc =>
    refine .inl (hother _ _ hpc ?_)
    rintro rfl
    rw [((h.good _).fresh le_rfl).1] at hj
    cases hj
  | record t y hp _ hpc => exact .inl (hother t _ hpc (by rintro rfl; simp [hj] at hp))
  | push t hp _ hpc | delete t hp _ hpc =>
    exact .inl (hother t _ hpc (by rintro rfl; simp [hj] at hp))
  | clean c now t y l _ _ hp _ hv hpc =>
    by_cases hjt : j = t
    · subst hjt
      obtain rfl : x = y := by simpa [hj] using hp
      have hf : s'.freed = Function.update s.freed x true := congrArg RefView.freed hv
      exact .inr (by rw [hf, Function.update_self])
    · exact .inl (hother t _ hpc hjt)

theorem Waited.step (hst : s.Steady) (h : s.Waited) (hok : s.WaitsAlone e)
    (hs : s.step e = some s') (hm : JoinView.Move s.joinView (s.label e) s'.joinView) :
    s'.Waited := by
  obtain ⟨t, p, hpc, hp⟩ := hst.core.step_target hok hs
  have hself : s'.pc t = p := by rw [hpc, Function.update_self]
  have hne : ∀ {j}, j ≠ t → s'.pc j = s.pc j := fun hj => by rw [hpc, Function.update_of_ne hj]
  -- a target is old, or nobody had it
  have htarget : ∀ j x, (s'.pc j).target = some x → (s.pc j).target = some x
      ∨ j = t ∧ s.freed x = false ∧ ∀ i, (s.pc i).target ≠ some x := by
    intro j x hj
    by_cases hjt : j = t
    · subst hjt
      rw [hself] at hj
      exact (hp x hj).imp_right fun hx => ⟨rfl, hx⟩
    · exact .inl (hne hjt ▸ hj)
  refine ⟨fun j j' x hj hj' => ?_, fun j x hj => ?_, fun j x hj => ?_, fun x hlt hd => ?_⟩
  · rcases htarget j x hj with h1 | ⟨rfl, -, h1⟩ <;> rcases htarget j' x hj' with h2 | ⟨rfl, -, h2⟩
    · exact h.one j j' x h1 h2
    · exact absurd h1 (h2 j)
    · exact absurd h2 (h1 j')
    · rfl
  · have hlive : s.freed x = false := (htarget j x hj).elim (h.live j x) fun hx => hx.2.1
    rcases step_freed hs with hf | ⟨c, now, i, y, -, -, hi, hf, hpc'⟩
    · rwa [hf]
    · have hji : j ≠ i := by
        rintro rfl
        rw [hpc', Function.update_self] at hj
        cases hj
      rw [hpc', Function.update_of_ne hji] at hj
      have hy : (s.pc i).target = some y := by
        rcases hi with hi | hi <;> rw [hi] <;> rfl
      have hxy : x ≠ y := by
        rintro rfl
        exact hji (h.one j i x hj hy)
      rw [hf, Function.update_of_ne hxy, hlive]
  · obtain ⟨i, q, hpc', -, -, hclean⟩ := hm.pc
    have hpc'' : s'.pc = Function.update s.pc i q := hpc'
    have hold : ∀ k, s.pc k = .waitClean x ∨ s.pc k = .waitMarkDead x →
        x < s.created ∧ (s.pc x).gone = true := by
      rintro k (hk | hk)
      · exact ⟨hst.bound.target k x (congrArg Pc.target hk), h.exited k x hk⟩
      · exact ⟨hst.bound.target k x (congrArg Pc.target hk), hst.bound.marks k x hk⟩
    have hx : x < s.created ∧ (s.pc x).gone = true := by
      rw [hpc''] at hj
      by_cases hji : j = i
      · subst hji
        rw [Function.update_self] at hj
        exact hold j (hclean x hj)
      · rw [Function.update_of_ne hji] at hj
        exact hold j (.inl hj)
    exact hm.gone hx.1 hx.2
  · rcases hm.dead hlt hd with ⟨hold, h1⟩ | h1
    · rcases h.dead x hold h1 with h2 | ⟨j, h2⟩
      · rcases step_freed hs with hf | ⟨c, now, i, y, -, -, -, hf, -⟩
        · exact .inl (by rw [hf, h2])
        · by_cases hxy : x = y
          · exact .inl (by rw [hf, hxy, Function.update_self])
          · exact .inl (by rw [hf, Function.update_of_ne hxy, h2])
      · exact (hst.core.step_clean hs h2).symm.imp_right fun h3 => ⟨j, h3⟩
    · exact .inr h1

theorem waited_schedInit (m : ℕ) : (schedInit m).Waited := by
  have hnone : ∀ j x, ((schedInit m).pc j).target ≠ some x := by
    intro j x hj
    rw [schedInit_pc] at hj
    split_ifs at hj <;> cases hj
  refine ⟨fun j _ x hj _ => absurd hj (hnone j x), fun j x hj => absurd hj (hnone j x),
    fun j x hj => absurd (congrArg Pc.target hj) (hnone j x), fun x hx hd => ?_⟩
  have hx2 : x < 2 := hx
  obtain rfl | rfl : x = 0 ∨ x = 1 := by omega
  · have hst : ((schedInit m).thread 0).state = .running := rfl
    rw [hst] at hd
    cases hd
  · have hst : ((schedInit m).thread 1).state = .ready := rfl
    rw [hst] at hd
    cases hd

/-- What holds in every run whose calls wait alone and whose statements miss no joiner. -/
theorem waited_of_reach {m : ℕ} (h : Reach step JoinsAlone (schedInit m) s) :
    (s.Steady ∧ ∀ x, s.joinView.Expects x) ∧ s.joinView.Woken ∧ s.Waited := by
  refine h.invariant
    (P := fun s => (s.Steady ∧ ∀ x, s.joinView.Expects x) ∧ s.joinView.Woken ∧ s.Waited)
    ⟨⟨.schedInit m, expects_schedInit m⟩, woken_schedInit m, waited_schedInit m⟩ ?_
  rintro s e s' ⟨⟨hst, hx⟩, hw, hone⟩ hok hs
  obtain ⟨hst', hx', hm⟩ := hst.expects_step hx hok.1 hs
  exact ⟨⟨hst', hx'⟩, hw.move hst.core.coherent hst.bound hm, hone.step hst hok.2 hs hm⟩

/-- In such a run a thread reclaimed stays so. -/
theorem freed_of_reach {s₁ : Sched} (h : Reach step JoinsAlone s₁ s) (hf : s₁.freed x = true) :
    s.freed x = true := by
  refine h.invariant (P := fun s => s.freed x = true) hf ?_
  intro s e s' hf _ hs
  rcases step_freed hs with hfr | ⟨-, -, -, y, -, -, -, hfr, -⟩
  · rwa [hfr]
  · rw [hfr]
    by_cases hxy : x = y
    · rw [hxy, Function.update_self]
    · rwa [Function.update_of_ne hxy]

/-- And one that has exited keeps what it terminated with. -/
theorem result_of_reach {m : ℕ} {s₁ : Sched} (h₁ : Reach step JoinsAlone (schedInit m) s₁)
    (h : Reach step JoinsAlone s₁ s) (hg : (s₁.pc x).gone = true) (hx : x < s₁.created) :
    (s.thread x).result = (s₁.thread x).result := by
  have hinv : (Reach step JoinsAlone (schedInit m) s ∧ x < s.created ∧ (s.pc x).gone = true)
      ∧ (s.thread x).result = (s₁.thread x).result := by
    refine h.invariant (P := fun s => (Reach step JoinsAlone (schedInit m) s ∧ x < s.created
      ∧ (s.pc x).gone = true) ∧ (s.thread x).result = (s₁.thread x).result) ⟨⟨h₁, hx, hg⟩, rfl⟩ ?_
    rintro s e s' ⟨⟨hr, hlt, hg⟩, hres⟩ hok hs
    obtain ⟨⟨hst, hexp⟩, -⟩ := waited_of_reach hr
    have hm := (hst.expects_step hexp hok.1 hs).2.2
    exact ⟨⟨hr.tail ⟨e, hok, hs⟩, hlt.trans_le hm.created_le, hm.gone hlt hg⟩,
      (step_result hs hlt hg).trans hres⟩
  exact hinv.2

/-- Where a `sched_wait_thread` ends, and what it has stored. -/
theorem WaitEnds.cases {s' : Sched} (h : s.WaitEnds j x s') :
    s.pc j = .waitDead x ∧ (s.thread x).state = .dead
      ∨ (s.pc j = .waitClean x ∧ s'.ret j = ⟨.noErr, some (s.thread x).retVal, none⟩
        ∨ s.pc j = .waitResumed x ∧ s'.ret j
          = ⟨.noErr, some (s.thread x).retVal, some (s.thread x).returnCause⟩)
        ∧ s'.freed x = true := by
  obtain ⟨c, now, hc, hs, htarget, hrun⟩ := h
  cases step_spec hs with
  | stmt _ _ t _ hc' _ hr =>
    obtain rfl : j = t := Option.some_inj.1 (hc.symm.trans hc')
    unfold Sched.stmt at hr
    cases hpc : s.pc j with
    | run | sched | exitZombie | exitTestInit | exitEnter | exitPush | exitChildren | exitDelete
    | exitSearch | exitWake | exitLeave | exitSched | exited =>
      rw [hpc] at htarget
      cases htarget
    | waitDead y =>
      rw [hpc] at htarget hr
      cases htarget
      cases hr
      refine .inl ⟨rfl, ?_⟩
      by_contra hd
      rw [Sched.waitDead, if_neg hd, goto_pc_self] at hrun
      cases hrun
    | waitZombie y =>
      rw [hpc] at hr
      cases hr
      unfold Sched.waitZombie at hrun
      split_ifs at hrun <;> rw [goto_pc_self] at hrun <;> cases hrun
    | waitMarkDead y | waitJoining y | waitRecord y =>
      rw [hpc] at hr
      cases hr
      have hrun' := goto_pc_self.symm.trans hrun
      cases hrun'
    | waitSched y =>
      rw [hpc] at hr
      have hp := (selectThread_refs hr).2
      rw [hp, goto_pc_self] at hrun
      cases hrun
    | waitClean y =>
      rw [hpc] at htarget hr
      cases htarget
      obtain ⟨-, hret, hf⟩ := cleaned_result (x := x) hr
      exact .inr ⟨.inl ⟨rfl, hret⟩, hf⟩
    | waitResumed y =>
      rw [hpc] at htarget hr
      cases htarget
      obtain ⟨-, hret, hf⟩ := cleaned_result (x := x) hr
      exact .inr ⟨.inr ⟨rfl, hret⟩, hf⟩

/-- The end past the `sched_schedule` misses no joiner. -/
theorem joinsAlone_of_resumed (hc : s.activeThread c = some j) (hp : s.pc j = .waitResumed x) :
    s.JoinsAlone (.stmt c now) := by
  refine ⟨fun i hi y _ => ?_, trivial⟩
  obtain rfl : j = i := Option.some_inj.1 (hc.symm.trans hi)
  have hp' : s.joinView.pc j = .waitResumed x := hp
  refine ⟨fun h => ?_, fun h => ?_, fun _ h => ?_, fun _ h => ?_⟩ <;> rw [hp'] at h <;> cases h

/-- In a run whose calls wait alone and whose statements miss no joiner, nobody is left waiting for a
thread that has exited; and a `sched_wait_thread` that ends, of a thread that has exited then, has
done what it is to do just when it ends past its `sched_schedule`. -/
theorem wait_delivers_iff {m : ℕ} (h : Reach step JoinsAlone (schedInit m) s) :
    s.joinView.NoLostWakeup
    ∧ ∀ j x s', s.WaitEnds j x s' → (s.pc x).gone = true
      ∧ ∀ s₁, Reach step JoinsAlone (schedInit m) s₁ → Reach step JoinsAlone s₁ s →
        (s₁.pc x).gone = true → x < s₁.created →
        (s₁.Delivers j x s s' ↔ s.pc j = .waitResumed x) := by
  obtain ⟨⟨hst, hexp⟩, hwoken, hone⟩ := waited_of_reach h
  refine ⟨JoinView.noLostWakeup_of_expects hst.core.coherent hexp, fun j x s' hend => ?_⟩
  obtain ⟨c, now, hc, hs, htarget, -⟩ := id hend
  have hlive := hone.live j x htarget
  -- nobody else can have marked it dead
  obtain ⟨hret, hf⟩ := hend.cases.resolve_left fun ⟨hp, hd⟩ => by
    rcases hone.dead x (hst.bound.target j x htarget) hd with h1 | ⟨i, h1⟩
    · rw [hlive] at h1
      cases h1
    · obtain rfl := hone.one i j x (congrArg Pc.target h1) htarget
      rw [h1] at hp
      cases hp
  have hgone : (s.pc x).gone = true := by
    rcases hret with ⟨hp, -⟩ | ⟨hp, -⟩
    · exact hone.exited j x hp
    · refine (hwoken.waits j x (.inr hp)).resolve_left fun h1 => ?_
      have hrun : (s.thread j).state = .running :=
        (hst.core.running hc (by rw [hp]; rfl) (by rw [hp]; rfl)).1
      have h1' : (s.thread j).state = .joining := h1
      rw [hrun] at h1'
      cases h1'
  refine ⟨hgone, fun s₁ h₁ hr hg₁ hx₁ => ?_⟩
  have hresult := result_of_reach h₁ hr hg₁ hx₁
  have hval : (s.thread x).retVal = (s₁.thread x).retVal := congrArg Prod.fst hresult
  have hcause : (s.thread x).returnCause = (s₁.thread x).returnCause := congrArg Prod.snd hresult
  constructor
  · intro hd
    refine (hret.resolve_left fun ⟨_, hr'⟩ => ?_).1
    have hcontra := congrArg CallRet.termCause (hr'.symm.trans hd.ret)
    cases hcontra
  · intro hp
    have hr' := (hret.resolve_left fun ⟨h1, _⟩ => by
      rw [hp] at h1
      cases h1).2
    refine ⟨by rw [hr', hval, hcause], hlive, hf, fun s'' hr'' e hcl => ?_⟩
    -- it is freed for good, and who reclaims a thread has it for a target
    have hreach : Reach step JoinsAlone (schedInit m) s'' :=
      (h.tail ⟨_, joinsAlone_of_resumed hc hp, hs⟩).trans hr''
    have hlive'' := (waited_of_reach hreach).2.2.live
    have hf'' := freed_of_reach hr'' hf
    cases e with
    | initAp | call | timer => exact hcl
    | stmt c' now' =>
      obtain ⟨i, -, hi⟩ := hcl
      have hi' : (s''.pc i).target = some x := by
        rcases hi with hi | hi <;> rw [hi] <;> rfl
      rw [hlive'' i x hi'] at hf''
      cases hf''

/-- Init blocks in its wait for thread 2, which divides by zero. -/
theorem wait_delivers_iff_blocked : ∃ s₁ s s' : Sched, Reach step JoinsAlone (schedInit 1) s₁
    ∧ Reach step JoinsAlone s₁ s ∧ (s₁.thread 2).returnCause = .divByZero ∧ s.WaitEnds 1 2 s'
    ∧ s₁.Delivers 1 2 s s' := by
  have hrun : (runEvents (guarded step JoinsAlone) (schedInit 1) [.timer 0 0,
      .call 0 0 (.create 0 0 6), .call 0 0 (.wait (some 2)), .stmt 0 0, .stmt 0 0, .stmt 0 0,
      .stmt 0 0, .stmt 0 0, .call 0 0 (.setCause .divByZero), .call 0 0 (.exit (some 7)),
      .stmt 0 0]).any (fun s₁ => decide ((s₁.pc 2).gone = true ∧ 2 < s₁.created
          ∧ (s₁.thread 2).returnCause = .divByZero)
        && (runEvents (guarded step JoinsAlone) s₁ [.stmt 0 0, .stmt 0 0, .stmt 0 0, .stmt 0 0,
          .stmt 0 0, .stmt 0 0, .stmt 0 0, .stmt 0 0, .stmt 0 0]).any fun s =>
            decide (s.activeThread 0 = some 1 ∧ s.pc 1 = .waitResumed 2)
            && (s.step (.stmt 0 0)).any fun s' => decide (s'.pc 1 = .run)) = true := by
    decide +kernel
  simp only [Option.any_eq_true, Bool.and_eq_true, decide_eq_true_eq] at hrun
  obtain ⟨s₁, hs₁, ⟨hg, hlt, hcause⟩, s, hs, ⟨hc, hp⟩, s', hs', hrun⟩ := hrun
  have h₁ : Reach step JoinsAlone (schedInit 1) s₁ := .of_run hs₁
  have h : Reach step JoinsAlone s₁ s := .of_run hs
  have hend : s.WaitEnds 1 2 s' := ⟨0, 0, hc, hs', by rw [hp]; rfl, hrun⟩
  exact ⟨s₁, s, s', h₁, h, hcause, hend,
    (((wait_delivers_iff (h₁.trans h)).2 1 2 s' hend).2 s₁ h₁ h hg hlt).2 hp⟩

/-- Thread 2 has divided by zero when init waits for it: init is not told. -/
theorem wait_not_delivers_zombie : ∃ s s' : Sched, Reach step JoinsAlone (schedInit 1) s
    ∧ (s.thread 2).returnCause = .divByZero ∧ s.WaitEnds 1 2 s'
    ∧ s'.ret 1 = ⟨.noErr, some 7, none⟩ ∧ ¬ s.Delivers 1 2 s s' := by
  have hrun : (runEvents (guarded step JoinsAlone) (schedInit 1) [.timer 0 0,
      .call 0 0 (.create 0 0 6), .timer 0 0, .call 0 0 (.setCause .divByZero),
      .call 0 0 (.exit (some 7)), .stmt 0 0, .stmt 0 0, .stmt 0 0, .stmt 0 0, .stmt 0 0, .stmt 0 0,
      .stmt 0 0, .stmt 0 0, .stmt 0 0, .stmt 0 0, .call 0 0 (.wait (some 2)), .stmt 0 0, .stmt 0 0,
      .stmt 0 0]).any (fun s => decide (s.activeThread 0 = some 1 ∧ s.pc 1 = .waitClean 2
          ∧ (s.thread 2).returnCause = .divByZero)
        && (s.step (.stmt 0 0)).any fun s' =>
          decide (s'.pc 1 = .run ∧ s'.ret 1 = ⟨.noErr, some 7, none⟩)) = true := by
    decide +kernel
  simp only [Option.any_eq_true, Bool.and_eq_true, decide_eq_true_eq] at hrun
  obtain ⟨s, hs, ⟨hc, hp, hcause⟩, s', hs', hrun, hret⟩ := hrun
  refine ⟨s, s', .of_run hs, hcause, ⟨0, 0, hc, hs', by rw [hp]; rfl, hrun⟩, hret, fun hd => ?_⟩
  have hcontra := congrArg CallRet.termCause (hret.symm.trans hd.ret)
  cases hcontra

end Sched

end RTLKIM

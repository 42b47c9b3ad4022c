import RTLKIM.SchedTables
import RTLKIM.Proofs.SchedStep

/-!
# The tables of a CPU between its elections

No step but `select_thread` on the CPU takes a thread from its active tables or changes its sleeping
table: what they do is to put threads that have become ready at the back. A thread that sleeps is
made ready by `select_thread` alone.
-/

namespace RTLKIM

namespace Sched

variable {s s' s'' : Sched} {e : SchedEv} {c c' t x now : ℕ} {f : Thread → Thread}

/-- The thread sleeps, or has been marked dead in its sleep. -/
def Rests (s : Sched) (x : ℕ) : Prop := (s.thread x).state = .sleeping ∨ (s.thread x).state = .dead

/-- Threads are put at the back of active tables, and the sleepers but for `who` are left. -/
structure Feeds (who : ℕ) (s s' : Sched) : Prop where
  active : ∀ c i, ∃ w, s'.table (.active c i) = w ++ s.table (.active c i)
  sleeping : ∀ c, s'.table (.sleeping c) = s.table (.sleeping c)
  time : ∀ x < s.created, x ≠ who → (s'.thread x).wakeupTime = (s.thread x).wakeupTime
  prio : ∀ x < s.created, (s'.node x).priority = (s.node x).priority
  created : s.created ≤ s'.created
  affinity : ∀ x < s.created, (s'.thread x).cpuAffinity = (s.thread x).cpuAffinity
  pc : ∀ x < s.created, x ≠ who → s'.pc x = s.pc x
  rests : ∀ x < s.created, x ≠ who → s.Rests x →
    (s'.thread x).state = (s.thread x).state ∨ (s'.thread x).state = .dead

namespace Feeds

variable {who : ℕ} {q : Table}

/-- A step that changes no table and no node's priority, and of the threads but `who` no more than
`Rests` allows. -/
theorem of_same (htab : s'.table = s.table) (hnode : s'.node = s.node)
    (hcreated : s'.created = s.created)
    (htime : ∀ x, x ≠ who → (s'.thread x).wakeupTime = (s.thread x).wakeupTime)
    (haff : ∀ x, (s'.thread x).cpuAffinity = (s.thread x).cpuAffinity)
    (hpc : ∀ x, x ≠ who → s'.pc x = s.pc x)
    (hst : ∀ x, x ≠ who → s.Rests x →
      (s'.thread x).state = (s.thread x).state ∨ (s'.thread x).state = .dead) : Feeds who s s' :=
  ⟨fun c i => ⟨[], by rw [htab]; rfl⟩, fun c => by rw [htab], fun x _ hx => htime x hx,
    fun x _ => by rw [hnode], hcreated.ge, fun x _ => haff x, fun x _ hx => hpc x hx,
    fun x _ hx hr => hst x hx hr⟩

/-- A step that changes no thread either. -/
theorem of_thread (htab : s'.table = s.table) (hnode : s'.node = s.node)
    (hcreated : s'.created = s.created) (hth : s'.thread = s.thread) (hpc : s'.pc = s.pc) :
    Feeds who s s' :=
  of_same htab hnode hcreated (fun x _ => by rw [hth]) (fun x => by rw [hth])
    (fun x _ => by rw [hpc]) fun x _ _ => .inl (by rw [hth])

theorem refl (s : Sched) : Feeds who s s := of_thread rfl rfl rfl rfl rfl

theorem trans (h : Feeds who s s') (h' : Feeds who s' s'') : Feeds who s s'' where
  active c i := by
    obtain ⟨w, hw⟩ := h.active c i
    obtain ⟨w', hw'⟩ := h'.active c i
    exact ⟨w' ++ w, by rw [hw', hw, List.append_assoc]⟩
  sleeping c := (h'.sleeping c).trans (h.sleeping c)
  time x hx hne := (h'.time x (hx.trans_le h.created) hne).trans (h.time x hx hne)
  prio x hx := (h'.prio x (hx.trans_le h.created)).trans (h.prio x hx)
  created := h.created.trans h'.created
  affinity x hx := (h'.affinity x (hx.trans_le h.created)).trans (h.affinity x hx)
  pc x hx hne := (h'.pc x (hx.trans_le h.created) hne).trans (h.pc x hx hne)
  rests x hx hne hr := by
    have hlt := hx.trans_le h.created
    rcases h.rests x hx hne hr with h1 | h1
    · rcases h'.rests x hlt hne (by rwa [Rests, h1]) with h2 | h2
      · exact .inl (h2.trans h1)
      · exact .inr h2
    · exact .inr ((h'.rests x hlt hne (.inr h1)).elim (·.trans h1) id)

theorem setThread (hf : ∀ T, (f T).wakeupTime = T.wakeupTime ∧ (f T).cpuAffinity = T.cpuAffinity
    ∧ (f T).state = T.state) : Feeds who s (s.setThread t f) :=
  of_same rfl rfl rfl (fun x _ => setThread_proj Thread.wakeupTime (fun T => (hf T).1) x)
    (fun x => setThread_proj Thread.cpuAffinity (fun T => (hf T).2.1) x) (fun _ _ => rfl)
    fun x _ _ => .inl (setThread_proj Thread.state (fun T => (hf T).2.2) x)

theorem setThread_who (hf : ∀ T, (f T).cpuAffinity = T.cpuAffinity) :
    Feeds t s (s.setThread t f) :=
  of_same rfl rfl rfl (fun _ hx => congrArg Thread.wakeupTime (setThread_of_ne hx))
    (fun x => setThread_proj Thread.cpuAffinity hf x) (fun _ _ => rfl)
    fun _ hx _ => .inl (congrArg Thread.state (setThread_of_ne hx))

/-- The state of a thread that does not rest, or of one that is marked dead. -/
theorem setState {st : ThreadState} (h : st = .dead ∨ ¬ s.Rests t) :
    Feeds who s (s.setState t st) := by
  have hf : ∀ T : Thread, { T with state := st }.wakeupTime = T.wakeupTime
      ∧ { T with state := st }.cpuAffinity = T.cpuAffinity := fun _ => ⟨rfl, rfl⟩
  refine of_same rfl rfl rfl (fun x _ => setThread_proj Thread.wakeupTime (fun T => (hf T).1) x)
    (fun x => setThread_proj Thread.cpuAffinity (fun T => (hf T).2) x) (fun _ _ => rfl)
    fun x _ hr => ?_
  by_cases hx : x = t
  · subst hx
    exact .inr ((congrArg Thread.state setThread_self).trans (h.resolve_right (not_not.2 hr)))
  · exact .inl (congrArg Thread.state (setThread_of_ne hx))

theorem goto (p : Pc) : Feeds t s (s.goto t p) :=
  of_same rfl rfl rfl (fun _ _ => rfl) (fun _ => rfl) (fun _ hx => goto_pc_of_ne hx)
    fun _ _ _ => .inl rfl

theorem returns (r : CallRet) : Feeds who s (s.returns t r) := of_thread rfl rfl rfl rfl rfl

theorem setNode {g : QueueNode → QueueNode} (hg : ∀ n, (g n).priority = n.priority) :
    Feeds who s (s.setNode t g) := by
  refine ⟨fun c i => ⟨[], rfl⟩, fun _ => rfl, fun _ _ _ => rfl, fun x _ => ?_, le_rfl,
    fun _ _ => rfl, fun _ _ _ => rfl, fun _ _ _ _ => .inl rfl⟩
  by_cases hx : x = t
  · subst hx
    exact (congrArg QueueNode.priority (Function.update_self _ _ _)).trans (hg _)
  · exact congrArg QueueNode.priority (Function.update_of_ne hx _ _)

/-- A table that is none of a CPU's. -/
theorem setTable {l : List ℕ} (ha : ∀ c i, Table.active c i ≠ q) (hs : ∀ c, Table.sleeping c ≠ q) :
    Feeds who s (s.setTable q l) :=
  ⟨fun c i => ⟨[], Function.update_of_ne (ha c i) _ _⟩, fun c => Function.update_of_ne (hs c) _ _,
    fun _ _ _ => rfl, fun _ _ => rfl, le_rfl, fun _ _ => rfl, fun _ _ _ => rfl,
    fun _ _ _ _ => .inl rfl⟩

theorem push_active (c i n : ℕ) : Feeds who s (s.push (.active c i) n) := by
  refine ⟨fun c' i' => ?_, fun c' => push_table_of_ne (by simp), fun _ _ _ => rfl, fun _ _ => rfl,
    le_rfl, fun _ _ => rfl, fun _ _ _ => rfl, fun _ _ _ _ => .inl rfl⟩
  by_cases h : Table.active c' i' = .active c i
  · rw [h]
    exact ⟨[n], Function.update_self _ _ _⟩
  · exact ⟨[], push_table_of_ne h⟩

theorem newThread (T : Thread) : Feeds who s (s.newThread T) := by
  have hth : ∀ x < s.created, (s.newThread T).thread x = s.thread x := fun x hx =>
    Function.update_of_ne hx.ne _ _
  refine ⟨fun c i => ⟨[], rfl⟩, fun _ => rfl, fun x hx _ => ?_, fun x hx => ?_, Nat.le_succ _,
    fun x hx => ?_, fun x hx _ => Function.update_of_ne hx.ne _ _, fun x hx _ _ => .inl ?_⟩
  · rw [hth x hx]
  · exact congrArg QueueNode.priority (Function.update_of_ne hx.ne _ _)
  · rw [hth x hx]
  · rw [hth x hx]

/-! ## Calls -/

theorem createIdle (c : ℕ) : Feeds who s (s.createIdle c) :=
  (newThread _).trans (of_thread rfl rfl rfl rfl rfl)

theorem createKernelThread (k a m : ℕ) : Feeds who s (s.createKernelThread t k a m) := by
  unfold Sched.createKernelThread
  split_ifs
  · exact returns _
  · exact returns _
  · exact returns _
  · exact of_thread rfl rfl rfl rfl rfl
  · have hnew : ∀ T : Thread, Feeds who s (Sched.fails { ((s.setThread t fun T =>
        { T with children := T.children.map (s.created :: ·) }).newThread T).push
          (.active a k) s.created with creator := Function.update s.creator s.created (some t) } t
        .noErr) := fun T =>
      (setThread (t := t) (f := fun T => { T with children := T.children.map (s.created :: ·) })
        fun _ => ⟨rfl, rfl, rfl⟩).trans ((newThread T).trans ((push_active a k s.created).trans
          (of_thread rfl rfl rfl rfl rfl)))
    exact hnew _

theorem unlock {type : WaitType} {object : ℕ} {d : Bool}
    (h : s.unlock c t type object d = .ok s') : Feeds t s s' := by
  unfold Sched.unlock at h
  split at h
  · cases h
    exact refl s
  · split at h
    · cases h
    · rename_i x _
      split_ifs at h with _ hst
      all_goals
        cases h
        have hrest : ¬ (s.popped (.waiting type object)).Rests x := by
          have hw : (s.thread x).state = .waiting := not_not.1 (not_or.1 hst).1
          show ¬ ((s.thread x).state = .sleeping ∨ (s.thread x).state = .dead)
          simp [hw]
        exact (setTable (by simp) (by simp)).trans
          ((setState (.inr hrest)).trans ((push_active _ _ _).trans (goto _)))

theorem perform {k : SchedCall} (h : s.perform c now t k = .ok s') : Feeds t s s' := by
  cases k with
  | create k a m =>
    cases h
    exact createKernelThread k a m
  | sleep ms =>
    cases h
    exact (setThread_who fun _ => by rfl).trans ((returns _).trans (goto _))
  | lock type object =>
    cases h
    exact (setThread_who fun _ => by rfl).trans ((setTable (by simp) (by simp)).trans (goto _))
  | unlock type object d => exact unlock h
  | setPriority k =>
    cases h
    unfold Sched.setPriority
    split_ifs
    · exact returns _
    · exact (setThread_who fun _ => by rfl).trans (returns _)
  | setCause cause =>
    cases h
    exact setThread_who fun _ => rfl
  | schedule =>
    cases h
    exact goto _
  | wait target =>
    rcases target with _ | x
    · cases h
      exact returns _
    · cases h
      exact goto _
  | exit ret =>
    cases h
    exact (setThread_who fun _ => by rfl).trans (goto _)

/-! ## Statements -/

theorem cleanJoinedThread (h : s.cleanJoinedThread t x = .ok s') : Feeds who s s' := by
  unfold Sched.cleanJoinedThread at h
  split at h
  · cases h
  · rename_i l _
    cases h
    exact (setThread (t := t) (f := fun T => { T with children := some (l.erase x) })
      fun _ => ⟨rfl, rfl, rfl⟩).trans ((setTable (q := .zombie) (by simp) (by simp)).trans
        (of_thread rfl rfl rfl rfl rfl))

theorem adopt (h : s.adopt t x = .ok s') : Feeds who s s' := by
  unfold Sched.adopt at h
  dsimp only at h
  split at h
  · cases h
  · split at h
    · cases h
    · rename_i l _
      cases h
      refine (setThread (t := x) (f := fun T => { T with ptid := (s.thread s.initThread).tid })
        fun _ => ⟨rfl, rfl, rfl⟩).trans (.trans ?_ (setThread (f := fun T => { T with
          children := some (x :: l) }) fun _ => ⟨rfl, rfl, rfl⟩))
      split_ifs
      · exact setNode fun _ => rfl
      · exact refl _

theorem exitChildren (h : s.exitChildren t = .ok s') : Feeds t s s' := by
  unfold Sched.exitChildren at h
  split at h
  · cases h
  · rename_i l _
    split at h
    · cases h
      exact goto _
    · exact (setThread (f := fun T => { T with children := some l.dropLast })
        fun _ => ⟨rfl, rfl, rfl⟩).trans (adopt h)

theorem exitWake {j : Option ℕ} (h : s.exitWake t j = .ok s') : Feeds t s s' := by
  rcases j with _ | j
  · cases h
    exact goto _
  · simp only [Sched.exitWake] at h
    split_ifs at h with hst
    · split at h
      · cases h
      · cases h
        have hrest : ¬ s.Rests j := by simp [Rests, hst]
        exact (setState (.inr hrest)).trans ((push_active _ _ _).trans (goto _))
    · cases h
      exact goto _

theorem cleaned {r : CallRet} (h : (s.cleanJoinedThread t x).map
    (fun s' => (s'.returns t r).goto t .run) = .ok s') : Feeds t s s' := by
  rcases hcl : s.cleanJoinedThread t x with _ | s₁
  · rw [hcl] at h
    cases h
  · rw [hcl] at h
    cases h
    exact (cleanJoinedThread hcl).trans ((returns r).trans (goto _))

/-- A statement other than a `sched_schedule`. -/
theorem stmt (h : s.stmt c now t = .ok s') (hp : (s.pc t).switches = false) : Feeds t s s' := by
  unfold Sched.stmt at h
  cases hpc : s.pc t with
  | sched | waitSched | exitSched => simp [hpc, Pc.switches] at hp
  | waitClean x =>
    simp only [hpc] at h
    exact cleaned h
  | waitResumed x =>
    simp only [hpc] at h
    exact cleaned h
  | exitChildren =>
    simp only [hpc] at h
    exact exitChildren h
  | exitWake j =>
    simp only [hpc] at h
    exact exitWake h
  | exitDelete =>
    simp only [hpc, Sched.exitDelete] at h
    split_ifs at h
    cases h
    exact (setThread_who fun _ => by rfl).trans (goto _)
  | exited =>
    simp only [hpc] at h
    cases h
  | waitDead x =>
    simp only [hpc] at h
    cases h
    unfold Sched.waitDead
    split_ifs
    · exact (returns _).trans (goto _)
    · exact goto _
  | waitZombie x =>
    simp only [hpc] at h
    cases h
    unfold Sched.waitZombie
    split_ifs
    · exact goto _
    · exact goto _
  | waitMarkDead x =>
    simp only [hpc] at h
    cases h
    exact (setState (.inl rfl)).trans (goto _)
  | waitJoining | exitZombie =>
    simp only [hpc] at h
    cases h
    exact (setThread_who fun _ => by rfl).trans (goto _)
  | waitRecord x =>
    simp only [hpc] at h
    cases h
    exact (setThread (t := x) (f := fun T => { T with joiningThread := some t })
      fun _ => ⟨rfl, rfl, rfl⟩).trans (goto _)
  | exitPush =>
    simp only [hpc] at h
    cases h
    exact (setTable (by simp) (by simp)).trans (goto _)
  | run =>
    simp only [hpc] at h
    cases h
    exact refl s
  | exitTestInit | exitEnter | exitSearch | exitLeave =>
    simp only [hpc] at h
    cases h
    exact goto _

end Feeds

/-! ## `select_thread` of another CPU -/

theorem requeue_table_of_ne {q : Table} (ha : ∀ i, q ≠ .active c i) (hs : q ≠ .sleeping c) :
    (s.requeue c t).table q = s.table q := by
  unfold requeue
  split_ifs
  · exact push_table_of_ne (ha _)
  · exact pushPrio_table_of_ne hs
  · rfl

theorem wake_table_of_ne {q : Table} (ha : ∀ i, q ≠ .active c i) (hs : q ≠ .sleeping c) (k : ℕ) :
    (wake c now k s).table q = s.table q := by
  refine wake_rule (P := fun s' => s'.table q = s.table q) ?_ ?_ ?_ k rfl
  · exact fun _ _ h _ _ => (popped_table_of_ne hs).trans h
  · intro _ _ _ h _ _
    exact (push_table_of_ne (ha _)).trans ((popped_table_of_ne hs).trans h)
  · exact fun _ _ _ h _ _ => (pushPrio_table_of_ne hs).trans ((popped_table_of_ne hs).trans h)

theorem selectThread_table_of_ne {q : Table} (ha : ∀ i, q ≠ .active c i) (hs : q ≠ .sleeping c)
    (h : s.selectThread c now = .ok s') : s'.table q = s.table q := by
  unfold selectThread at h
  split at h
  · cases h
  · unfold elect at h
    dsimp only at h
    split at h
    · cases h
    · split at h
      · cases h
      · cases h
        exact (popped_table_of_ne (ha _)).trans
          ((wake_table_of_ne ha hs _).trans (requeue_table_of_ne ha hs))

/-! ## Steps -/

/-- What a step that is no election on CPU `c` is to its tables. -/
theorem step_feeds (hs : s.step e = some s') (hsel : ¬ s.Selects c e) :
    (∃ who, (s.created ≤ who
        ∨ ∃ c, s.activeThread c = some who ∧ (s.pc who).switches = false) ∧ Feeds who s s')
      ∨ ∃ c' now t p, c' ≠ c ∧ s.activeThread c' = some t ∧ Leaves (s.pc t) p
        ∧ (s.goto t p).selectThread c' now = .ok s' := by
  have hstep := step_spec hs
  cases hstep with
  | initAp c' => exact .inl ⟨s.created, .inl le_rfl, .createIdle c'⟩
  | call c' now t k _ hc hk hr =>
    exact .inl ⟨t, .inr ⟨c', hc, by rw [hk.caller.2]; rfl⟩, .perform hr⟩
  | timer c' now t _ hc _ hr =>
    refine .inr ⟨c', now, t, s.pc t, fun h => hsel h, hc, .timer _, ?_⟩
    rwa [goto_self]
  | stmt c' now t _ hc _ hr =>
    by_cases hsw : (s.pc t).switches = true
    · have hne : c' ≠ c := by
        rintro rfl
        exact hsel ⟨rfl, t, hc, hsw⟩
      unfold Sched.stmt at hr
      cases hpc : s.pc t <;> simp only [hpc, Pc.switches] at hsw hr <;> try cases hsw
      · exact .inr ⟨c', now, t, _, hne, hc, hpc ▸ .sched, hr⟩
      · exact .inr ⟨c', now, t, _, hne, hc, hpc ▸ .wait _, hr⟩
      · exact .inr ⟨c', now, t, _, hne, hc, hpc ▸ .exit, hr⟩
    · have hsw' : (s.pc t).switches = false := Bool.eq_false_of_not_eq_true hsw
      exact .inl ⟨t, .inr ⟨c', hc, hsw'⟩, .stmt hr hsw'⟩

end Sched

end RTLKIM

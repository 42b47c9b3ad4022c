import RTLKIM.ThreadRefs
import RTLKIM.Proofs.SchedStep

/-!
# What a step does to the references

`RefStep` lists what a step of the kernel does to the fields that refer to threads and to the
statement each thread is at, and `step_refs` that there is nothing else. Nothing is asked of the
state before the step.
-/

namespace RTLKIM

namespace Sched

variable {s s' : Sched} {e : SchedEv} {c now t x n : ℕ} {f : Thread → Thread}

/-! ## Statements that leave the references -/

theorem refs_setThread (hf : ∀ T, (f T).tid = T.tid ∧ (f T).children = T.children
    ∧ (f T).joiningThread = T.joiningThread) : (s.setThread t f).refs = s.refs := by
  have h1 : (s.setThread t f).refs.tid = s.refs.tid :=
    funext fun y => setThread_proj Thread.tid (fun T => (hf T).1) y
  have h2 : (s.setThread t f).refs.children = s.refs.children :=
    funext fun y => setThread_proj Thread.children (fun T => (hf T).2.1) y
  have h3 : (s.setThread t f).refs.joining = s.refs.joining :=
    funext fun y => setThread_proj Thread.joiningThread (fun T => (hf T).2.2) y
  unfold refs at h1 h2 h3 ⊢
  rw [RefView.mk.injEq]
  exact ⟨h1, h2, h3, rfl, rfl, rfl, rfl, rfl, rfl, rfl⟩

theorem refs_setState (st : ThreadState) : (s.setState t st).refs = s.refs :=
  refs_setThread fun _ => ⟨rfl, rfl, rfl⟩

theorem refs_setTable {q : Table} (hq : q ≠ .zombie) (l : List ℕ) :
    (s.setTable q l).refs = s.refs := by
  have h : (s.setTable q l).table .zombie = s.table .zombie := Function.update_of_ne hq.symm _ _
  unfold refs
  rw [h]
  rfl

theorem refs_push {q : Table} (hq : q ≠ .zombie) : (s.push q n).refs = s.refs := refs_setTable hq _

theorem refs_popped {q : Table} (hq : q ≠ .zombie) : (s.popped q).refs = s.refs :=
    refs_setTable hq _

theorem refs_goto (p : Pc) : (s.goto t p).refs = s.refs := rfl

theorem refs_fails (err : SchedErr) : (s.fails t err).refs = s.refs := rfl

theorem table_removeData {q : Table} : (s.removeData q x).table q
    = (s.table q).eraseP fun n => (s.node n).data = some x := Function.update_self q _ _

theorem refs_pushPrio {q : Table} (hq : q ≠ .zombie) (k : ℕ) :
    (s.pushPrio q t k).refs = s.refs := by
  have hd : (s.setNode t fun x => { x with priority := k }).refs = s.refs := by
    have h1 : ∀ y, ((s.setNode t fun x => { x with priority := k }).node y).data = (s.node y).data :=
      fun y => (Same.setNode_priority (x := y) k).node
    unfold refs
    rw [funext h1]
    rfl
  exact (refs_setTable hq _).trans hd

theorem refs_requeue : (s.requeue c t).refs = s.refs := by
  unfold Sched.requeue
  split_ifs
  · exact (refs_setTable (by simp) _).trans (refs_setState _)
  · exact refs_pushPrio (by simp) _
  · rfl

theorem refs_wake (now k : ℕ) (s : Sched) : (wake c now k s).refs = s.refs := by
  have hpop : ∀ s₁ : Sched, (s₁.popped (.sleeping c)).refs = s₁.refs := fun _ =>
    refs_setTable (by simp) _
  refine wake_rule (P := fun s' => s'.refs = s.refs) ?_ ?_ ?_ k rfl
  · exact fun s₁ _ h _ _ => (hpop s₁).trans h
  · intro s₁ _ _ h _ _
    exact (refs_setTable (by simp) _).trans ((refs_setState _).trans ((hpop s₁).trans h))
  · exact fun s₁ _ _ h _ _ => (refs_pushPrio (by simp) _).trans ((hpop s₁).trans h)

theorem pc_requeue : (s.requeue c t).pc = s.pc := by
  unfold Sched.requeue
  split_ifs <;> rfl

theorem pc_wake (now k : ℕ) (s : Sched) : (wake c now k s).pc = s.pc :=
  wake_rule (P := fun s' => s'.pc = s.pc) (fun _ _ h _ _ => h) (fun _ _ _ h _ _ => h)
    (fun _ _ _ h _ _ => h) k rfl

theorem elect_refs (h : s.elect c = .ok s') : s'.refs = s.refs ∧ s'.pc = s.pc := by
  unfold Sched.elect at h
  split at h
  · cases h
  · split at h
    · cases h
    · cases h
      exact ⟨(refs_setState _).trans (refs_setTable (by simp) _), rfl⟩

theorem selectThread_refs (h : s.selectThread c now = .ok s') :
    s'.refs = s.refs ∧ s'.pc = s.pc := by
  unfold Sched.selectThread at h
  split at h
  · cases h
  · rename_i prev _
    obtain ⟨h1, h2⟩ := elect_refs h
    exact ⟨h1.trans ((refs_wake now _ _).trans refs_requeue),
      h2.trans ((pc_wake now _ _).trans pc_requeue)⟩

/-! ## What a step is -/

/-- `t` goes on to `p`: it does not come back from its exit or lose the target it waits for, a target
that it gets is that of a call, and init does not enter the part of `thread_exit` that is not its
own. -/
structure Goes (s : Sched) (e : SchedEv) (t : ℕ) (p : Pc) : Prop where
  push : (s.pc t).pushed = true → p.pushed = true
  wait : ∀ y, s.pc t = .waitSched y → p = .waitResumed y
  back : ∀ y, s.pc t ≠ .waitResumed y ∧ s.pc t ≠ .waitClean y
  live : s.pc t ≠ .exited
  target : ∀ y, p.target = some y → (s.pc t).target = some y
    ∨ y < s.created ∧ ∃ c now, e = .call c now (.wait (some y))
  inner : t = s.initThread → (s.pc t).inner = false → p.inner = false

/-- What follows a statement of `t` that leaves the references. -/
inductive Next (s : Sched) (t : ℕ) : Pc → Pc → Prop
  | sched : Next s t .sched .run
  | isDead (x : ℕ) : Next s t (.waitDead x) .run
  | notDead (x : ℕ) : Next s t (.waitDead x) (.waitZombie x)
  | isZombie (x : ℕ) : Next s t (.waitZombie x) (.waitMarkDead x)
  | notZombie (x : ℕ) : Next s t (.waitZombie x) (.waitJoining x)
  | markDead (x : ℕ) : Next s t (.waitMarkDead x) (.waitClean x)
  | joining (x : ℕ) : Next s t (.waitJoining x) (.waitRecord x)
  | resumed (x : ℕ) : Next s t (.waitSched x) (.waitResumed x)
  | exitZombie : Next s t .exitZombie .exitTestInit
  | isInit : Next s t .exitTestInit .exitSched
  | notInit (hi : t ≠ s.initThread) : Next s t .exitTestInit .exitEnter
  | enter : Next s t .exitEnter .exitPush
  | childless : Next s t .exitChildren .exitDelete
  | search (j : Option ℕ) : Next s t .exitSearch (.exitWake j)
  | wake (j : Option ℕ) : Next s t (.exitWake j) .exitLeave
  | leave : Next s t .exitLeave .exitSched
  | exited : Next s t .exitSched .exited

theorem Next.goes {p q : Pc} (h : Next s t p q) (hp : s.pc t = p) : Goes s e t q := by
  cases h with
  | notInit hi => constructor <;> simp [hp, hi, Pc.pushed, Pc.target]
  | _ => constructor <;> simp [hp, Pc.pushed, Pc.target, Pc.inner]

/-- What a step does to the references and to the statements that threads are at. -/
inductive RefStep (s : Sched) (e : SchedEv) (s' : Sched) : Prop
  | same (hv : s'.refs = s.refs) (hpc : s'.pc = s.pc)
  | goes (t : ℕ) (p : Pc) (hg : Goes s e t p) (hv : s'.refs = s.refs)
      (hpc : s'.pc = Function.update s.pc t p)
  | spent (he : e.creates = true) (hv : s'.refs = { s.refs with lastTid := add32 s.lastGivenTid 1 })
      (hpc : s'.pc = s.pc)
  | idle (c : ℕ) (he : e = .initAp c) (hv : s'.refs = s.refs.born s.lastGivenTid none)
      (hpc : s'.pc = Function.update s.pc s.created .run)
  | create (t : ℕ) (he : e.creates = true)
      (hv : s'.refs = s.refs.born (add32 s.lastGivenTid 1) (some t))
      (hpc : s'.pc = Function.update s.pc s.created .run)
  | record (t x : ℕ) (hp : s.pc t = .waitRecord x)
      (hv : s'.refs = { s.refs with joining := Function.update s.refs.joining x (some t) })
      (hpc : s'.pc = Function.update s.pc t (.waitSched x))
  | clean (c now t x : ℕ) (l : List ℕ) (he : e = .stmt c now) (hc : s.activeThread c = some t)
      (hp : s.pc t = .waitClean x ∨ s.pc t = .waitResumed x) (hl : s.refs.children t = some l)
      (hv : s'.refs = s.refs.clean t x l) (hpc : s'.pc = Function.update s.pc t .run)
  | push (t : ℕ) (hp : s.pc t = .exitPush) (hv : s'.refs = { s.refs with zombie := t :: s.refs.zombie })
      (hpc : s'.pc = Function.update s.pc t .exitChildren)
  | adopt (t x : ℕ) (l k : List ℕ) (data : ℕ → Option ℕ) (hp : s.pc t = .exitChildren)
      (hl : s.refs.children t = some l) (hx : l.getLast? = some x)
      (hk : Function.update s.refs.children t (some l.dropLast) s.initThread = some k)
      (hd : ∀ n, data n = s.refs.data n ∨ data n = none ∧ s.refs.data n = some t)
      (hv : s'.refs = s.refs.adopt t x l k data) (hpc : s'.pc = s.pc)
  | delete (t : ℕ) (hp : s.pc t = .exitDelete)
      (hv : s'.refs = { s.refs with children := Function.update s.refs.children t none })
      (hpc : s'.pc = Function.update s.pc t .exitSearch)

theorem refs_newThread (T : Thread) (h1 : T.joiningThread = none) (h2 : T.children = some []) :
    (s.newThread T).refs = s.refs.born T.tid none := by
  unfold refs RefView.born newThread
  rw [RefView.mk.injEq]
  refine ⟨funext fun y => ?_, funext fun y => ?_, funext fun y => ?_, funext fun y => ?_, rfl, rfl, rfl,
    rfl, rfl, rfl⟩
  all_goals
    by_cases hy : y = s.created
    · subst hy
      simp [h1, h2]
    · simp [hy]

/-- A thread's children change, and nothing else. -/
theorem refs_setChildren (g : Option (List ℕ) → Option (List ℕ)) :
    (s.setThread t fun T => { T with children := g T.children }).refs
      = { s.refs with children := Function.update s.refs.children t (g (s.refs.children t)) } := by
  unfold refs
  rw [RefView.mk.injEq]
  refine ⟨funext fun y => setThread_proj Thread.tid (by intro T; rfl) y, funext fun y => ?_,
    funext fun y => setThread_proj Thread.joiningThread (by intro T; rfl) y, rfl, rfl, rfl, rfl, rfl, rfl,
    rfl⟩
  by_cases hy : y = t
  · subst hy
    simp
  · simp [setThread_of_ne hy, hy]

theorem refs_setJoining (j : Option ℕ) :
    (s.setThread t fun T => { T with joiningThread := j }).refs
      = { s.refs with joining := Function.update s.refs.joining t j } := by
  unfold refs
  rw [RefView.mk.injEq]
  refine ⟨funext fun y => setThread_proj Thread.tid (by intro T; rfl) y,
    funext fun y => setThread_proj Thread.children (by intro T; rfl) y, funext fun y => ?_, rfl, rfl, rfl,
    rfl, rfl, rfl, rfl⟩
  by_cases hy : y = t
  · subst hy
    simp
  · simp [setThread_of_ne hy, hy]

/-- A creation that fails nowhere. -/
theorem createKernelThread_born {k a m : ℕ} (ha : ¬ s.cpuCount - 1 < a)
    (hk : ¬ kernelLowestPriority < k)
    (hm : ¬ m < 6) : (s.createKernelThread t k a m).refs = s.refs.born (add32 s.lastGivenTid 1) (some t)
      ∧ (s.createKernelThread t k a m).pc = Function.update s.pc s.created .run := by
  have hnew : ∀ T : Thread, T.tid = add32 s.lastGivenTid 1 → T.joiningThread = none →
      T.children = some [] → (((s.setThread t fun T => { T with
        children := T.children.map (s.created :: ·) }).newThread T).push (.active a k) s.created).refs
          = s.refs.born (add32 s.lastGivenTid 1) (some t) := by
    intro T h1 h2 h3
    rw [refs_push (by simp), refs_newThread T h2 h3, refs_setChildren (Option.map (s.created :: ·)), h1]
    rfl
  unfold Sched.createKernelThread
  rw [if_neg ha, if_neg hk, if_neg (by omega), if_neg hm]
  refine ⟨?_, rfl⟩
  exact hnew ⟨add32 s.lastGivenTid 1, ((s.setThread t fun T => { T with
    children := T.children.map (s.created :: ·) }).thread t).tid, k, .ready, .sem, 0, none, some [], a, 0,
    .correctly⟩ rfl rfl rfl

theorem createKernelThread_refs (k a m : ℕ) (he : e.creates = true) :
    RefStep s e (s.createKernelThread t k a m) := by
  by_cases hok : ¬ s.cpuCount - 1 < a ∧ ¬ kernelLowestPriority < k ∧ ¬ m < 6
  · obtain ⟨ha, hk, hm⟩ := hok
    obtain ⟨hv, hpc⟩ := createKernelThread_born (t := t) ha hk hm
    exact .create t he hv hpc
  · unfold Sched.createKernelThread
    split_ifs with h1 h2 h3 h4
    · exact .same rfl rfl
    · exact .same rfl rfl
    · exact .same rfl rfl
    · exact .spent he rfl rfl
    · exact absurd ⟨h1, h2, h4⟩ hok

/-! ## Calls and statements -/

theorem perform_refs {k : SchedCall} (hk : s.MayCall c t k) (hr : s.perform c now t k = .ok s') :
    RefStep s (.call c now k) s' := by
  have hp := hk.caller.2
  have hgoes : ∀ p, (∀ y, p.target = some y → y < s.created ∧ k = .wait (some y)) →
      p.inner = false → s'.refs = s.refs → s'.pc = Function.update s.pc t p →
      RefStep s (.call c now k) s' := by
    intro p htarget hinner h1 h2
    refine .goes t p ⟨?_, ?_, ?_, ?_, fun y hy => .inr ?_, fun _ _ => hinner⟩ h1 h2
    · simp [hp, Pc.pushed]
    · simp [hp]
    · simp [hp]
    · simp [hp]
    · exact ⟨(htarget y hy).1, c, now, by rw [(htarget y hy).2]⟩
  cases k with
  | create k a m =>
    cases hr
    exact createKernelThread_refs k a m rfl
  | sleep ms =>
    cases hr
    refine hgoes .sched (by simp [Pc.target]) rfl ?_ rfl
    unfold Sched.sleep
    rw [refs_goto, refs_fails]
    exact refs_setThread fun _ => ⟨rfl, rfl, rfl⟩
  | lock type object =>
    cases hr
    refine hgoes .sched (by simp [Pc.target]) rfl ?_ rfl
    unfold Sched.lock
    rw [refs_goto, refs_push (by simp)]
    exact refs_setThread fun _ => ⟨rfl, rfl, rfl⟩
  | unlock type object d =>
    simp only [Sched.perform, Sched.unlock] at hr
    split at hr
    · cases hr
      exact .same rfl rfl
    · split at hr
      · cases hr
      · split_ifs at hr
        all_goals
          cases hr
          refine hgoes _ (by simp [Pc.target]) rfl ?_ rfl
          rw [refs_goto, refs_push (by simp), refs_setState, refs_popped (by simp)]
  | setPriority k =>
    cases hr
    unfold Sched.setPriority
    split_ifs
    · exact .same rfl rfl
    · refine .same ?_ rfl
      rw [refs_fails]
      exact refs_setThread fun _ => ⟨rfl, rfl, rfl⟩
  | setCause cause =>
    cases hr
    refine .same ?_ rfl
    exact refs_setThread fun _ => ⟨rfl, rfl, rfl⟩
  | schedule =>
    cases hr
    exact hgoes .sched (by simp [Pc.target]) rfl rfl rfl
  | wait target =>
    rcases target with _ | x
    · cases hr
      exact .same rfl rfl
    · cases hr
      refine hgoes (.waitDead x) (fun y hy => ?_) rfl rfl rfl
      obtain rfl : x = y := Option.some_inj.1 hy
      exact ⟨hk.2.2, rfl⟩
  | exit ret =>
    cases hr
    refine hgoes .exitZombie (by simp [Pc.target]) rfl ?_ rfl
    unfold Sched.enterExit
    rw [refs_goto]
    exact refs_setThread fun _ => ⟨rfl, rfl, rfl⟩

/-- Either end of `sched_wait_thread`. -/
theorem cleanJoinedThread_refs {r : CallRet} (hc : s.activeThread c = some t)
    (hp : s.pc t = .waitClean x ∨ s.pc t = .waitResumed x)
    (hr : (s.cleanJoinedThread t x).map (fun s' => (s'.returns t r).goto t .run) = .ok s') :
    RefStep s (.stmt c now) s' := by
  unfold Sched.cleanJoinedThread at hr
  rcases hl : (s.thread t).children with _ | l
  · rw [hl] at hr
    cases hr
  · rw [hl] at hr
    cases hr
    refine .clean c now t x l rfl hc hp hl ?_ rfl
    have h := refs_setChildren (s := s) (t := t) fun _ => some (l.erase x)
    unfold refs at h ⊢
    unfold RefView.clean
    rw [RefView.mk.injEq] at h ⊢
    obtain ⟨h1, h2, h3, -⟩ := h
    have h5 := table_removeData (x := x) (q := .zombie)
      (s := s.setThread t fun T => { T with children := some (l.erase x) })
    exact ⟨h1, h2, h3, rfl, h5, rfl, rfl, rfl, rfl, rfl⟩

/-- A round of the loop over the children hands over the last, which has a joiner recorded. -/
theorem exitChildren_adopt (hr : s.exitChildren t = .ok s') :
    (s.thread t).children = some [] ∧ s' = s.goto t .exitDelete
      ∨ ∃ x l k data, s.refs.children t = some l ∧ l.getLast? = some x ∧ s.refs.joining x ≠ none
        ∧ Function.update s.refs.children t (some l.dropLast) s.initThread = some k
        ∧ (∀ n, data n = s.refs.data n ∨ data n = none ∧ s.refs.data n = some t)
        ∧ s'.refs = s.refs.adopt t x l k data ∧ s'.pc = s.pc := by
  unfold Sched.exitChildren at hr
  split at hr
  · cases hr
  rename_i l hl
  split at hr
  · rename_i hlast
    rw [List.getLast?_eq_none_iff] at hlast
    subst hlast
    cases hr
    exact .inl ⟨hl, rfl⟩
  rename_i x hlast
  unfold adopt at hr
  simp only [] at hr
  split at hr
  · cases hr
  rename_i j hj
  split at hr
  · cases hr
  rename_i k hk
  cases hr
  set s₁ := s.setThread t fun T => { T with children := some l.dropLast } with hs₁
  set s₂ := s₁.setThread x fun T => { T with ptid := (s₁.thread s₁.initThread).tid } with hs₂
  set s₃ := if (s₂.node j).data = some t then s₂.setNode j fun n => { n with data := none } else s₂
    with hs₃
  have h₁ : s₁.refs = { s.refs with children := Function.update s.refs.children t (some l.dropLast) } :=
    refs_setChildren fun _ => some l.dropLast
  have h₂ : s₂.refs = s₁.refs := refs_setThread fun _ => ⟨rfl, rfl, rfl⟩
  -- the node of the joiner is cleared only when it holds `t`
  have hd : ∀ n, s₃.refs.data n = s.refs.data n ∨ s₃.refs.data n = none ∧ s.refs.data n = some t := by
    intro n
    rw [hs₃]
    split_ifs with hdata
    · by_cases hn : n = j
      · subst hn
        refine .inr ⟨?_, hdata⟩
        show (Function.update s₂.node n { s₂.node n with data := none } n).data = none
        rw [Function.update_self]
      · refine .inl ?_
        show (Function.update s₂.node j { s₂.node j with data := none } n).data = _
        rw [Function.update_of_ne hn]
        rfl
    · exact .inl rfl
  have h₃ : s₃.refs = { s₂.refs with data := s₃.refs.data } := by
    rw [hs₃]
    split_ifs <;> rfl
  have hi : s₃.initThread = s.initThread := by
    rw [hs₃]
    split_ifs <;> rfl
  have hpc : s₃.pc = s.pc := by
    rw [hs₃]
    split_ifs <;> rfl
  refine .inr ⟨x, l, k, s₃.refs.data, hl, hlast, ?_, ?_, hd, ?_, hpc⟩
  · have hj' : s₂.refs.joining x = some j := hj
    rw [h₂, h₁] at hj'
    exact ne_of_eq_of_ne hj' (Option.some_ne_none j)
  · have hk' : s₃.refs.children s.initThread = some k := by rw [← hi]; exact hk
    rw [h₃, h₂, h₁] at hk'
    exact hk'
  · have h := refs_setChildren (s := s₃) (t := s₃.initThread) fun _ => some (x :: k)
    rw [hi] at h ⊢
    rw [h]
    nth_rewrite 1 2 [h₃]
    rw [h₂, h₁]
    rfl

theorem exitChildren_refs (hp : s.pc t = .exitChildren) (hr : s.exitChildren t = .ok s') :
    RefStep s e s' := by
  rcases exitChildren_adopt hr with ⟨-, rfl⟩ | ⟨x, l, k, data, hl, hx, -, hk, hd, hv, hpc⟩
  · exact .goes t .exitDelete (Next.childless.goes hp) rfl rfl
  · exact .adopt t x l k data hp hl hx hk hd hv hpc

theorem exitWake_refs {j : Option ℕ} (hp : s.pc t = .exitWake j) (hr : s.exitWake t j = .ok s') :
    RefStep s e s' := by
  have hgoes : s'.refs = s.refs → s'.pc = Function.update s.pc t .exitLeave → RefStep s e s' :=
    .goes t .exitLeave ((Next.wake j).goes hp)
  rcases j with _ | j
  · cases hr
    exact hgoes rfl rfl
  · simp only [Sched.exitWake] at hr
    split_ifs at hr
    · split at hr
      · cases hr
      · cases hr
        refine hgoes ?_ rfl
        rw [refs_goto, refs_push (by simp), refs_setState]
    · cases hr
      exact hgoes rfl rfl

theorem stmt_refs (hc : s.activeThread c = some t) (hr : s.stmt c now t = .ok s') :
    RefStep s (.stmt c now) s' := by
  have hselect : ∀ p, (s.goto t p).selectThread c now = .ok s' →
      s'.refs = s.refs ∧ s'.pc = Function.update s.pc t p := fun p h => selectThread_refs h
  unfold Sched.stmt at hr
  cases hp : s.pc t with
  | run =>
    rw [hp] at hr
    cases hr
    exact .same rfl rfl
  | sched =>
    rw [hp] at hr
    obtain ⟨h1, h2⟩ := hselect .run hr
    exact .goes t .run (Next.sched.goes hp) h1 h2
  | waitDead x =>
    rw [hp] at hr
    cases hr
    unfold Sched.waitDead
    split_ifs
    · exact .goes t .run ((Next.isDead x).goes hp) rfl rfl
    · exact .goes t (.waitZombie x) ((Next.notDead x).goes hp) rfl rfl
  | waitZombie x =>
    rw [hp] at hr
    cases hr
    unfold Sched.waitZombie
    split_ifs
    · exact .goes t (.waitMarkDead x) ((Next.isZombie x).goes hp) rfl rfl
    · exact .goes t (.waitJoining x) ((Next.notZombie x).goes hp) rfl rfl
  | waitMarkDead x =>
    rw [hp] at hr
    cases hr
    exact .goes t (.waitClean x) ((Next.markDead x).goes hp) (refs_setState _) rfl
  | waitClean x =>
    rw [hp] at hr
    exact cleanJoinedThread_refs hc (.inl hp) hr
  | waitJoining x =>
    rw [hp] at hr
    cases hr
    exact .goes t (.waitRecord x) ((Next.joining x).goes hp) (refs_setState _) rfl
  | waitRecord x =>
    rw [hp] at hr
    cases hr
    exact .record t x hp (refs_setJoining _) rfl
  | waitSched x =>
    rw [hp] at hr
    obtain ⟨h1, h2⟩ := hselect (.waitResumed x) hr
    exact .goes t (.waitResumed x) ((Next.resumed x).goes hp) h1 h2
  | waitResumed x =>
    rw [hp] at hr
    exact cleanJoinedThread_refs hc (.inr hp) hr
  | exitZombie =>
    rw [hp] at hr
    cases hr
    exact .goes t .exitTestInit (Next.exitZombie.goes hp) (refs_setState _) rfl
  | exitTestInit =>
    rw [hp] at hr
    cases hr
    unfold Sched.exitTestInit
    split_ifs with hi
    · exact .goes t .exitSched (Next.isInit.goes hp) rfl rfl
    · exact .goes t .exitEnter ((Next.notInit hi).goes hp) rfl rfl
  | exitEnter =>
    rw [hp] at hr
    cases hr
    exact .goes t .exitPush (Next.enter.goes hp) rfl rfl
  | exitPush =>
    rw [hp] at hr
    cases hr
    refine .push t hp ?_ rfl
    unfold Sched.exitPush Sched.push refs
    rw [RefView.mk.injEq]
    have hz : (s.setTable .zombie (t :: s.table .zombie)).table .zombie = t :: s.table .zombie := by
      simp [setTable]
    exact ⟨rfl, rfl, rfl, rfl, hz, rfl, rfl, rfl, rfl, rfl⟩
  | exitChildren =>
    rw [hp] at hr
    exact exitChildren_refs hp hr
  | exitDelete =>
    rw [hp] at hr
    have hr' : s.exitDelete t = .ok s' := hr
    unfold Sched.exitDelete at hr'
    split_ifs at hr'
    cases hr'
    exact .delete t hp (refs_setChildren fun _ => none) rfl
  | exitSearch =>
    rw [hp] at hr
    cases hr
    exact .goes t _ ((Next.search _).goes hp) rfl rfl
  | exitWake j =>
    rw [hp] at hr
    exact exitWake_refs hp hr
  | exitLeave =>
    rw [hp] at hr
    cases hr
    exact .goes t .exitSched (Next.leave.goes hp) rfl rfl
  | exitSched =>
    rw [hp] at hr
    obtain ⟨h1, h2⟩ := hselect .exited hr
    exact .goes t .exited (Next.exited.goes hp) h1 h2
  | exited =>
    rw [hp] at hr
    cases hr

theorem step_refs (hs : s.step e = some s') : RefStep s e s' := by
  cases step_spec hs with
  | initAp c _ _ => exact .idle c rfl (refs_newThread _ rfl rfl) rfl
  | call c now t k _ hc hk hr => exact perform_refs hk hr
  | stmt c now t _ hc _ hr => exact stmt_refs hc hr
  | timer c now t _ hc _ hr =>
    obtain ⟨h1, h2⟩ := selectThread_refs hr
    exact .same h1 h2

end Sched

end RTLKIM

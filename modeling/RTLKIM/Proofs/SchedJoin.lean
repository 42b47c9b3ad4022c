import RTLKIM.SchedulerSpec
import RTLKIM.Proofs.SchedStep
import RTLKIM.Proofs.Join

/-!
# The scheduler moves as the join protocol does

Every step of the scheduler is a `Move` of its view.
-/

namespace RTLKIM

namespace JoinView

variable {v v' : JoinView} {t : ℕ}

theorem Soft.refl (st : ℕ → ThreadState) : Soft st st := fun _ => .inl rfl

/-- One thread goes from a state that nobody looks for to another. -/
theorem Soft.update {st : ℕ → ThreadState} {a : ThreadState} (h1 : (st t).plain = true)
    (h2 : a.plain = true) : Soft st (Function.update st t a) := by
  intro x
  by_cases hx : x = t
  · subst hx
    rw [Function.update_self]
    exact .inr ⟨h1, h2⟩
  · exact .inl (Function.update_of_ne hx _ _)

/-- A call that returns at once. -/
theorem Move.stay (hp : v.pc t = .run) : v.Move .other v := by
  have h := Move.call t .run v.state hp .returns (.refl _)
  rwa [← hp, Function.update_eq_self] at h

end JoinView

open JoinView

namespace Sched

variable {s s' : Sched} {t x c now n : ℕ} {e : SchedEv}

theorem Core.coherent (h : s.Core s.activeThread) : s.joinView.Coherent where
  gone _ := h.gone_iff
  busy _ _ hc hy hg := (h.running hc hy hg).1
  found t j hp := (h.good t).found j hp
  fresh t ht := ((h.good t).fresh ht).1
  parked t ht := by
    have ht' : (s.thread t).state = .joining := ht
    obtain ⟨loc, -, hsit⟩ := (h.good t).place
    cases hsit with
    | running h1 | ready h1 | drowsy h1 | sleeping h1 | waiting _ h1 => simp [h1] at ht'
    | gone h1 | zombie h1 => simp [ht'] at h1
    | joining _ h2 => exact h2
  active c t hc := (h.active c t hc).2
  once c c' t hc hc' := (h.active c t hc).1.symm.trans (h.active c' t hc').1
  init := ((h.good s.initThread).init rfl).1

/-- Fields of a thread that the view does not show. -/
theorem setThread_joinView (f : Thread → Thread)
    (hf : ∀ T, (f T).state = T.state ∧ (f T).joiningThread = T.joiningThread) :
    (s.setThread t f).joinView = s.joinView := by
  refine JoinView.ext rfl ?_ ?_ rfl rfl rfl
  · exact funext fun y => setThread_proj Thread.state (fun T => (hf T).1) y
  · exact funext fun y => setThread_proj Thread.joiningThread (fun T => (hf T).2) y

/-- The thread's state changes, and its joiner does not. -/
theorem setThread_joinView_state (f : Thread → Thread)
    (hf : ∀ T, (f T).joiningThread = T.joiningThread) : (s.setThread t f).joinView
    = { s.joinView with state := Function.update s.joinView.state t (f (s.thread t)).state } := by
  refine JoinView.ext rfl ?_ ?_ rfl rfl rfl
  · exact funext fun y => Function.apply_update (fun _ T => T.state) s.thread t _ y
  · exact funext fun y => setThread_proj Thread.joiningThread hf y

theorem setState_joinView {st : ThreadState} : (s.setState t st).joinView
    = { s.joinView with state := Function.update s.joinView.state t st } :=
  setThread_joinView_state _ fun _ => rfl

/-! ## Calls -/

/-- A thread more. -/
theorem Move.of_newThread {T : Thread} (hst : T.state = .running ∨ T.state = .ready)
    (hslot : T.joiningThread = none) (hpc : s'.pc = Function.update s.pc s.created .run)
    (hth : s'.thread = Function.update s.thread s.created T) (hcr : s'.created = s.created + 1)
    (hinit : s'.initThread = s.initThread)
    (ha : ∀ c t, s'.activeThread c = some t → s.activeThread c = some t ∨ t = s.created)
    (hk : ∀ c t, s.activeThread c = some t → s'.activeThread c = some t) :
    Move s.joinView .other s'.joinView := by
  have h : s'.joinView = { s.joinView with
      pc := Function.update s.joinView.pc s.joinView.created .run
      state := Function.update s.joinView.state s.joinView.created T.state
      slot := Function.update s.joinView.slot s.joinView.created none
      active := s'.activeThread
      created := s.joinView.created + 1 } := by
    refine JoinView.ext hpc ?_ ?_ rfl hinit hcr
    · show (fun y => (s'.thread y).state) = _
      rw [hth]
      exact funext fun y => Function.apply_update (fun _ T => T.state) s.thread s.created T y
    · show (fun y => (s'.thread y).joiningThread) = _
      rw [hth, ← hslot]
      exact funext fun y => Function.apply_update (fun _ T => T.joiningThread) s.thread s.created T y
  rw [h]
  exact .born T.state s'.activeThread hst ha hk

theorem createKernelThread_move (hp : s.pc t = .run) (k a m : ℕ) :
    Move s.joinView .other (s.createKernelThread t k a m).joinView := by
  unfold Sched.createKernelThread
  split_ifs
  · exact .stay (t := t) hp
  · exact .stay (t := t) hp
  · exact .stay (t := t) hp
  · exact .stay (t := t) hp
  · set s₁ := s.setThread t fun T => { T with children := T.children.map (s.created :: ·) } with hs₁
    have h₁ : s₁.joinView = s.joinView := setThread_joinView _ fun T => ⟨rfl, rfl⟩
    rw [← h₁]
    exact Move.of_newThread (s := s₁) (.inr rfl) rfl rfl rfl rfl rfl (fun _ _ h => .inl h)
      fun _ _ h => h

theorem createIdle_move (hc : s.activeThread c = none) :
    Move s.joinView .other (s.createIdle c).joinView := by
  refine Move.of_newThread (.inl rfl) rfl rfl rfl rfl rfl (fun c' y hy => ?_) fun c' y hy => ?_
  · have hy' : Function.update s.activeThread c (some s.created) c' = some y := hy
    by_cases hcc : c' = c
    · rw [hcc, Function.update_self] at hy'
      exact .inr (Option.some_inj.1 hy').symm
    · rw [Function.update_of_ne hcc] at hy'
      exact .inl hy'
  · have hcc : c' ≠ c := by
      rintro rfl
      rw [hc] at hy
      cases hy
    exact (Function.update_of_ne hcc _ _).trans hy

/-- The caller goes on to `p`, in another state. -/
theorem Move.of_call {p : Pc} {f : ℕ → ThreadState} (hp : s.pc t = .run) (hq : s.joinView.Starts p)
    (hst : Soft s.joinView.state f)
    (hs' : s'.joinView = { s.joinView with pc := Function.update s.pc t p, state := f }) :
    Move s.joinView .other s'.joinView := by
  rw [hs']
  exact .call t p f hp hq hst

theorem Core.perform_move (h : s.Core s.activeThread) (hc : s.activeThread c = some t)
    {k : SchedCall} (hk : s.MayCall c t k) (hr : s.perform c now t k = .ok s') :
    Move s.joinView .other s'.joinView := by
  have hp : s.pc t = .run := by
    unfold MayCall at hk
    split at hk
    · exact hk.2.1
    · exact hk.2
  have hplain : (s.joinView.state t).plain = true := by
    have : s.joinView.state t = .running := (h.running hc (by rw [hp]; rfl) (by rw [hp]; rfl)).1
    rw [this]
    rfl
  cases k with
  | create k a m =>
    cases hr
    exact createKernelThread_move hp k a m
  | sleep ms =>
    cases hr
    refine Move.of_call hp .blocks (.update (t := t) (a := .sleeping) hplain rfl) ?_
    exact congrArg (fun v : JoinView => { v with pc := Function.update s.pc t .sched })
      (setThread_joinView_state (s := s) (t := t) (fun T => { T with
        wakeupTime := (now + ms + 2 ^ 64 - 1000 / kernelMainTimerFreq) % 2 ^ 64
        state := .sleeping }) fun _ => rfl)
  | lock type object =>
    cases hr
    refine Move.of_call hp .blocks (.update (t := t) (a := .waiting) hplain rfl) ?_
    exact congrArg (fun v : JoinView => { v with pc := Function.update s.pc t .sched })
      (setThread_joinView_state (s := s) (t := t)
        (fun T => { T with state := .waiting, blockType := type }) fun _ => rfl)
  | unlock type object d =>
    simp only [Sched.perform, Sched.unlock] at hr
    rcases hn : (s.table (.waiting type object)).getLast? with _ | n
    · rw [hn] at hr
      cases hr
      exact .stay (t := t) hp
    · obtain ⟨hdata, hst, -⟩ := h.release hn
      rw [hn] at hr
      simp only [hdata] at hr
      have hview : ∀ p, s.joinView.Starts p → Move s.joinView .other
          ((((s.popped (.waiting type object)).setState n .ready).push
            (.active (s.thread n).cpuAffinity (s.thread n).priority) n).goto t p).joinView := by
        intro p hq
        refine Move.of_call (f := Function.update s.joinView.state n .ready) hp hq (.update ?_ rfl) ?_
        · show (s.thread n).state.plain = true
          rw [hst]
          rfl
        · exact congrArg (fun v : JoinView => { v with pc := Function.update s.pc t p })
            (setState_joinView (s := s) (t := n))
      split_ifs at hr
      · cases hr
        exact hview _ .blocks
      · cases hr
        exact hview _ .returns
  | setPriority k =>
    cases hr
    have : (s.setPriority t k).joinView = s.joinView := by
      unfold Sched.setPriority
      split_ifs
      · rfl
      · exact setThread_joinView (s := s) (t := t) (fun T => { T with priority := k })
          fun T => ⟨rfl, rfl⟩
    rw [this]
    exact .stay (t := t) hp
  | setCause cause =>
    cases hr
    rw [setThread_joinView (fun T => { T with returnCause := cause }) fun T => ⟨rfl, rfl⟩]
    exact .stay (t := t) hp
  | schedule =>
    cases hr
    exact .call t .sched s.joinView.state hp .blocks (.refl _)
  | wait target =>
    rcases target with _ | x
    · cases hr
      exact .stay (t := t) hp
    · cases hr
      exact .call t (.waitDead x) s.joinView.state hp (.waits x hk.2.2) (.refl _)
  | exit ret =>
    cases hr
    refine Move.of_call hp .exits (.refl _) ?_
    exact congrArg (fun v : JoinView => { v with pc := Function.update s.pc t .exitZombie })
      (setThread_joinView (s := s) (t := t) (fun T => { T with retVal := ret.getD T.retVal })
        fun T => ⟨rfl, rfl⟩)

/-! ## Statements -/

theorem Switch.move {p : Pc} {l : Label} (hc : s.activeThread c = some t) (hl : Leaves (s.pc t) p)
    (hcrit : p.critical = false) (hwho : l = .timer t ∨ l = .stmt t)
    (hlab : p = s.pc t → l = .timer t) (hs : Switch (s.goto t p) s' c n) :
    Move s.joinView l s'.joinView := by
  have hst : Soft s.joinView.state s'.joinView.state := by
    intro y
    refine (hs.shuffle.state y).imp id fun h => ?_
    have hplain : ∀ {a : ThreadState}, a.runnable = true → a.plain = true := by
      intro a ha
      cases a <;> simp_all [ThreadState.runnable, ThreadState.plain]
    exact ⟨hplain h.1, hplain h.2⟩
  have h : s'.joinView = { s.joinView with
      pc := Function.update s.joinView.pc t p
      state := s'.joinView.state
      active := Function.update s.joinView.active c (some n) } := by
    refine JoinView.ext hs.shuffle.pc rfl ?_ hs.active hs.shuffle.init hs.shuffle.created
    funext y
    have hy : s'.thread y = { s.thread y with state := (s'.thread y).state } := hs.shuffle.thread y
    show (s'.thread y).joiningThread = _
    rw [hy]
    rfl
  rw [h]
  exact .switch l c t p n _ hc hl hcrit hwho hlab hst hs.running

theorem cleanJoinedThread_joinView (h : s.cleanJoinedThread t x = .ok s') :
    s'.joinView = s.joinView := by
  unfold Sched.cleanJoinedThread at h
  split at h
  · cases h
  · rename_i l hl
    cases h
    exact setThread_joinView (s := s) (t := t) (fun T => { T with children := some (l.erase x) })
      fun T => ⟨rfl, rfl⟩

theorem Adopts.joinView {l : List ℕ} (h : Adopts s s' t x l) : s'.joinView = s.joinView :=
  JoinView.ext h.pc (funext h.state) (funext h.joining) h.active h.init h.created

/-- A statement of `t` moves the view. -/
theorem Core.stmt_move (h : s.Core s.activeThread) (hc : s.activeThread c = some t)
    (hp : s.pc t ≠ .run) (hr : s.stmt c now t = .ok s') :
    Move s.joinView (.stmt t) s'.joinView := by
  have hselect : ∀ p, Leaves (s.pc t) p → p.critical = false → p ≠ s.pc t →
      (s.goto t p).selectThread c now = .ok s' → Move s.joinView (.stmt t) s'.joinView := by
    intro p hl hcr hne hr
    obtain ⟨s₁, n, h1, -, h2⟩ := h.selectThread now hc hl
    rw [hr] at h1
    cases h1
    exact h2.move hc hl hcr (.inr rfl) fun he => absurd he hne
  have hgoes : ∀ p, s.joinView.Goes t p → Move s.joinView (.stmt t) (s.goto t p).joinView :=
    fun p hq => .goes c t p hc hq
  have hclean : ∀ x r, s.joinView.Goes t .run →
      (s.cleanJoinedThread t x).map (fun s' => (s'.returns t r).goto t .run) = .ok s' →
      Move s.joinView (.stmt t) s'.joinView := by
    intro x r hq hr
    rcases hcl : s.cleanJoinedThread t x with _ | s₁
    · rw [hcl] at hr
      cases hr
    · rw [hcl] at hr
      cases hr
      have hv := cleanJoinedThread_joinView hcl
      have hmove := Move.goes c t .run hc hq
      rw [← hv] at hmove ⊢
      exact hmove
  have hstate : ∀ (p : Pc) y st, ((s.setState y st).goto t p).joinView
      = { s.joinView with
          pc := Function.update s.pc t p
          state := Function.update s.joinView.state y st } := fun p y st =>
    congrArg (fun v : JoinView => { v with pc := Function.update s.pc t p }) setState_joinView
  unfold Sched.stmt at hr
  cases hpc : s.pc t with
  | run => exact absurd hpc hp
  | sched =>
    rw [hpc] at hr hselect
    exact hselect .run .sched rfl (by simp) hr
  | waitDead x =>
    rw [hpc] at hr
    cases hr
    unfold Sched.waitDead
    split_ifs with hd
    · exact hgoes .run (.isDead x hpc)
    · exact hgoes _ (.notDead x hpc hd)
  | waitZombie x =>
    rw [hpc] at hr
    cases hr
    unfold Sched.waitZombie
    split_ifs with hd
    · exact hgoes _ (.isZombie x hpc hd)
    · exact hgoes _ (.notZombie x hpc hd)
  | waitMarkDead x =>
    rw [hpc] at hr
    cases hr
    unfold Sched.waitMarkDead
    rw [hstate]
    exact .marks c t x hc hpc
  | waitClean x =>
    rw [hpc] at hr
    exact hclean x _ (.cleaned x hpc) hr
  | waitJoining x =>
    rw [hpc] at hr
    cases hr
    unfold Sched.waitJoining
    rw [hstate]
    exact .joins c t x hc hpc
  | waitRecord x =>
    rw [hpc] at hr
    cases hr
    have hview : (s.waitRecord t x).joinView = { s.joinView with
        pc := Function.update s.pc t (.waitSched x)
        slot := Function.update s.joinView.slot x (some t) } := by
      refine JoinView.ext rfl ?_ ?_ rfl rfl rfl
      · refine funext fun y => ?_
        exact setThread_proj (s := s) (t := x) (f := fun T => { T with joiningThread := some t })
          Thread.state (fun T => rfl) y
      · exact funext fun y => Function.apply_update (fun _ T => T.joiningThread) s.thread x _ y
    rw [hview]
    exact .records c t x hc hpc
  | waitSched x =>
    rw [hpc] at hr hselect
    exact hselect (.waitResumed x) (.wait x) rfl (by simp) hr
  | waitResumed x =>
    rw [hpc] at hr
    exact hclean x _ (.joined x hpc) hr
  | exitZombie =>
    rw [hpc] at hr
    cases hr
    unfold Sched.exitZombie
    rw [hstate]
    exact .exits c t hc hpc
  | exitTestInit =>
    rw [hpc] at hr
    cases hr
    unfold Sched.exitTestInit
    split_ifs with hi
    · exact hgoes _ (.isInit hpc hi)
    · exact hgoes _ (.notInit hpc hi)
  | exitEnter =>
    rw [hpc] at hr
    cases hr
    exact hgoes _ (.enter hpc)
  | exitPush =>
    rw [hpc] at hr
    cases hr
    exact hgoes _ (.push hpc)
  | exitChildren =>
    rw [hpc] at hr
    rcases exitChildren_cases hr with ⟨-, rfl⟩ | ⟨x, l, ha⟩
    · exact hgoes _ (.childless hpc)
    · have hmove := hgoes _ (.child hpc)
      rw [← hpc, goto_self] at hmove
      rwa [ha.joinView]
  | exitDelete =>
    rw [hpc] at hr
    have hr' : s.exitDelete t = .ok s' := hr
    unfold Sched.exitDelete at hr'
    split_ifs at hr'
    cases hr'
    have hview := setThread_joinView (s := s) (t := t) (fun T => { T with children := none })
      fun T => ⟨rfl, rfl⟩
    have hmove := hgoes _ (.delete hpc)
    show Move _ _ { (s.setThread t fun T => { T with children := none }).joinView with
      pc := Function.update s.pc t .exitSearch }
    rw [hview]
    exact hmove
  | exitSearch =>
    rw [hpc] at hr
    cases hr
    refine hgoes _ (.search _ hpc fun j hj hg => ?_)
    have hj' : (s.thread t).joiningThread = some j := hj
    have hg' : (s.pc j).gone = false := hg
    rw [hj']
    rcases (h.good j).node with h1 | ⟨-, h1⟩
    · exact h1
    · rw [hg'] at h1
      cases h1
  | exitWake j =>
    rw [hpc] at hr
    rcases j with _ | j
    · cases hr
      exact hgoes _ (.wakeNone hpc)
    · have hr' : s.exitWake t (some j) = .ok s' := hr
      simp only [Sched.exitWake] at hr'
      split_ifs at hr' with hj
      · rw [(h.good t).found j hpc] at hr'
        cases hr'
        show Move s.joinView _ ((s.setState j .ready).goto t .exitLeave).joinView
        rw [hstate]
        exact .wakes c t j hc hpc hj
      · cases hr'
        exact hgoes _ (.notJoining j hpc hj)
  | exitLeave =>
    rw [hpc] at hr
    cases hr
    exact hgoes _ (.leave hpc)
  | exitSched =>
    rw [hpc] at hr hselect
    exact hselect .exited .exit rfl (by simp) hr
  | exited =>
    rw [hpc] at hr
    cases hr

/-! ## Steps -/

/-- Whose statement an event is, or whom it interrupts. -/
def label (s : Sched) : SchedEv → Label
  | .stmt c _ => (s.activeThread c).elim .other .stmt
  | .timer c _ => (s.activeThread c).elim .other .timer
  | .initAp _ | .call _ _ _ => .other

/-- Every step is a move, and keeps every thread in its place if it records in time. -/
theorem Sound.step_move (h : s.Sound) (hrec : s.RecordsInTime e) (hs : s.step e = some s') :
    s'.Core s'.activeThread ∧ Move s.joinView (s.label e) s'.joinView := by
  cases step_spec hs with
  | initAp c _ hn => exact ⟨h.core.createIdle hn, createIdle_move hn⟩
  | call c now t k _ hc hk hr =>
    obtain ⟨s₁, h1, h2⟩ : ∃ s₁, s.perform c now t k = .ok s₁ ∧ s₁.Core s₁.activeThread :=
      h.core.perform hc hk.caller.1 hk.caller.2 k
    rw [hr] at h1
    cases h1
    exact ⟨h2, h.core.perform_move hc hk hr⟩
  | stmt c now t _ hc hp hr =>
    have hlab : s.label (.stmt c now) = .stmt t := by
      show (s.activeThread c).elim _ _ = _
      rw [hc]
      rfl
    rw [hlab]
    refine ⟨?_, h.core.stmt_move hc hp hr⟩
    rcases h.stmt now hc (fun x i hx => hrec t x i hc hx) with h1 | ⟨s₁, h1, h2⟩
    · rw [hr] at h1
      cases h1
    · rw [hr] at h1
      cases h1
      exact h2
  | timer c now t _ hc hcr hr =>
    have hlab : s.label (.timer c now) = .timer t := by
      show (s.activeThread c).elim _ _ = _
      rw [hc]
      rfl
    obtain ⟨s₁, n, h1, h2, h3⟩ : ∃ s₁ n, s.selectThread c now = .ok s₁ ∧ s₁.Core s₁.activeThread
        ∧ Switch s s₁ c n := h.core.timer hc
    rw [hr] at h1
    cases h1
    rw [hlab]
    rw [← goto_self (s := s) (t := t)] at h3
    exact ⟨h2, h3.move hc (.timer _) hcr (.inl rfl) fun _ => rfl⟩

/-- Every thread is in its place, and every call has a target that it may mark dead. -/
structure Steady (s : Sched) : Prop where
  core : s.Core s.activeThread
  bound : s.joinView.Bound

theorem Steady.schedInit (n : ℕ) : (schedInit n).Steady := by
  have hpc : ∀ t, (Sched.schedInit n).joinView.pc t = if t < 2 then .run else .exited := schedInit_pc n
  refine ⟨.schedInit n, fun t x ht => ?_, fun t x ht => ?_⟩
  · rw [hpc] at ht
    split_ifs at ht <;> cases ht
  · rw [hpc] at ht
    split_ifs at ht

theorem Steady.step (h : s.Steady) (hrec : s.RecordsInTime e) (hs : s.step e = some s') :
    s'.Steady ∧ Move s.joinView (s.label e) s'.joinView := by
  have hsound : s.Sound := ⟨h.core, h.bound.marks⟩
  obtain ⟨hcore, hmove⟩ := hsound.step_move hrec hs
  exact ⟨⟨hcore, h.bound.move h.core.coherent hmove⟩, hmove⟩

theorem expects_schedInit (n x : ℕ) : (schedInit n).joinView.Expects x := by
  refine .of_untargeted fun j hj => ?_
  have hpc : (schedInit n).joinView.pc j = if j < 2 then .run else .exited := schedInit_pc n j
  rw [hpc] at hj
  split_ifs at hj <;> cases hj

/-- A joiner is recorded before its target looks for it. -/
theorem Steady.recordsInTime (h : s.Steady) (hx : ∀ x, x ≠ s.initThread → s.joinView.Expects x) :
    s.RecordsInTime e := by
  cases e with
  | initAp | call | timer => trivial
  | stmt c now =>
    intro t x i _ ht hw
    by_cases hi : x = s.initThread
    · -- init does not look for its joiner
      have := ((h.core.good x).init hi).1
      simp [hw, Pc.inner] at this
    · have ho := ((hx x hi).committed t (.inr ht)).1
      have hw' : s.joinView.pc x = .exitWake (some i) := hw
      simp [hw', Pc.searched] at ho

theorem label_stmt (h : s.label e = .stmt t) :
    ∃ c now, e = .stmt c now ∧ s.activeThread c = some t := by
  cases e with
  | initAp | call => cases h
  | stmt c now =>
    have h' : (s.activeThread c).elim Label.other Label.stmt = .stmt t := h
    rcases hc : s.activeThread c with _ | y
    · rw [hc] at h'
      cases h'
    · rw [hc] at h'
      cases h'
      exact ⟨c, now, rfl, hc⟩
  | timer c now =>
    have h' : (s.activeThread c).elim Label.other Label.timer = .stmt t := h
    rcases hc : s.activeThread c with _ | y <;> rw [hc] at h' <;> cases h'

/-- A step that misses no joiner. -/
theorem Steady.expects_step (hst : s.Steady) (hx : ∀ x, s.joinView.Expects x)
    (hok : s.JoinsInTime e) (hs : s.step e = some s') : s'.Steady
      ∧ (∀ x, s'.joinView.Expects x) ∧ Move s.joinView (s.label e) s'.joinView := by
  obtain ⟨hst', hmove⟩ := hst.step (hst.recordsInTime fun x _ => hx x) hs
  refine ⟨hst', fun x => ?_, hmove⟩
  refine (hx x).move hst.core.coherent hst.bound hmove fun hlt t ht => ?_
  obtain ⟨c, now, rfl, hc⟩ := label_stmt ht
  exact hok t hc x hlt

theorem expects_of_reach (h : Reach step JoinsInTime (schedInit n) s) :
    s.Steady ∧ ∀ x, s.joinView.Expects x := by
  refine h.invariant (P := fun s => s.Steady ∧ ∀ x, s.joinView.Expects x)
    ⟨.schedInit n, expects_schedInit n⟩ ?_
  rintro s e s' ⟨hst, hx⟩ hok hs
  obtain ⟨hst', hx', -⟩ := hst.expects_step hx hok hs
  exact ⟨hst', hx'⟩

/-- In a run whose statements miss no joiner, nobody waits for a thread that will not wake it up. -/
theorem run_noLostWakeup (h : Reach step JoinsInTime (schedInit n) s) :
    s.joinView.NoLostWakeup := by
  obtain ⟨hst, hx⟩ := expects_of_reach h
  exact noLostWakeup_of_expects hst.core.coherent hx

/-- Init, on CPU 0, joins the thread it created on CPU 1. -/
theorem run_noLostWakeup_joined : ∃ s : Sched, Reach step JoinsInTime (schedInit 2) s
    ∧ s.joinView.Joins 1 2 ∧ s.joinView.NoLostWakeup := by
  have hrun : ((runEvents (guarded step JoinsInTime) (schedInit 2)
      [.timer 0 0, .call 0 0 (.create 0 1 6), .initAp 1, .timer 1 0, .call 0 0 (.wait (some 2)),
        .stmt 0 0, .stmt 0 0, .stmt 0 0, .stmt 0 0, .stmt 0 0]).map fun s =>
      decide (s.joinView.Joins 1 2)) = some true := by decide +kernel
  obtain ⟨s, h, hs⟩ := Option.map_eq_some_iff.1 hrun
  exact ⟨s, .of_run h, of_decide_eq_true hs, run_noLostWakeup (.of_run h)⟩

/-- The thread exits after init has tested it and before init is recorded: init is never woken up.
-/
theorem not_noLostWakeup_exit_in_window : ∃ s : Sched, Reach step anyStep (schedInit 2) s
    ∧ ¬ s.joinView.NoLostWakeup := by
  have hrun : ((runEvents (guarded step anyStep) (schedInit 2)
      [.timer 0 0, .call 0 0 (.create 0 1 6), .initAp 1, .timer 1 0, .call 0 0 (.wait (some 2)),
        .stmt 0 0, .stmt 0 0, .call 1 0 (.exit none), .stmt 1 0, .stmt 1 0, .stmt 1 0, .stmt 1 0,
        .stmt 1 0, .stmt 1 0, .stmt 1 0, .stmt 1 0, .stmt 1 0, .stmt 1 0, .stmt 0 0, .stmt 0 0,
        .stmt 0 0]).map fun s =>
      (decide (s.joinView.Joins 1 2), (s.joinView.pc 2).exiting, s.joinView.state 2))
      = some (true, false, .zombie) := by decide +kernel
  obtain ⟨s, h, hs⟩ := Option.map_eq_some_iff.1 hrun
  simp only [Prod.mk.injEq] at hs
  obtain ⟨h1, h2, h3⟩ := hs
  exact ⟨s, .of_run h, fun hw => (hw 1 2 (of_decide_eq_true h1) h2).1 h3⟩

end Sched

end RTLKIM

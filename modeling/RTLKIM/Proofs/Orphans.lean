import RTLKIM.Proofs.ThreadRefs

/-!
# The children of a thread that exits

`thread_exit` pops its children one by one, reads the node of the joiner of each without a test that
there is one, and pushes the child on init's queue. So the children are handed over when each has a
joiner recorded, and the first that has none, from the end of the queue, is a dereference of `NULL`.
-/

namespace RTLKIM

namespace Sched

variable {s s' : Sched} {t x c now : ℕ} {l k : List ℕ}

/-- `thread_exit` ends with its `sched_schedule`. -/
theorem threadExit_eq (ht : t ≠ s.initThread) : s.threadExit c now t
    = (s.threadExitBody t).bind fun s => (s.goto t .exited).selectThread c now := by
  have hi : t ≠ ((s.exitZombie t).exitTestInit t).initThread := ht
  unfold Sched.threadExit Sched.threadExitBody
  simp only [if_neg hi, bind, Except.bind]
  split
  · rfl
  split
  · rfl
  split <;> rfl

/-! ## Every run -/

/-- `Linked`, with what keeps it: init does not go through the deletion of its queue. -/
structure Rooted (s : Sched) : Prop where
  own : ∀ n x, s.refs.data n = some x → n = x
  heir : s.refs.children s.refs.init ≠ none
  outer : (s.pc s.refs.init).inner = false
  made : s.refs.init < s.refs.created

theorem Rooted.linked (h : s.Rooted) : s.Linked := ⟨h.own, h.heir⟩

/-- A thread more. -/
theorem Rooted.born (h : s.Rooted) {i : ℕ} {p : Option ℕ} (hv : s'.refs = s.refs.born i p)
    (hpc : s'.pc = Function.update s.pc s.created .run) : s'.Rooted := by
  have hne : s.refs.init ≠ s.created := h.made.ne
  refine ⟨fun n x hx => ?_, ?_, ?_, ?_⟩
  · rw [hv] at hx
    by_cases hn : n = s.created
    · subst hn
      exact Option.some_inj.1 ((Function.update_self (f := s.refs.data) s.created _).symm.trans hx)
    · exact h.own n x ((Function.update_of_ne hn _ _).symm.trans hx)
  · rw [hv]
    have hold : (s.refs.born i p).children s.refs.init = (p.elim s.refs.children fun t =>
        Function.update s.refs.children t ((s.refs.children t).map (s.created :: ·))) s.refs.init :=
      Function.update_of_ne hne _ _
    show (s.refs.born i p).children s.refs.init ≠ none
    rw [hold]
    rcases p with _ | t
    · exact h.heir
    · show Function.update s.refs.children t _ s.refs.init ≠ none
      by_cases ht : s.refs.init = t
      · subst ht
        rw [Function.update_self]
        simpa using h.heir
      · rw [Function.update_of_ne ht]
        exact h.heir
  · rw [hpc, hv]
    show (Function.update s.pc s.created .run s.refs.init).inner = false
    rw [Function.update_of_ne hne]
    exact h.outer
  · rw [hv]
    exact Nat.lt_succ_of_lt h.made

/-- A step that leaves the nodes and comes to `p` with `t`. -/
theorem Rooted.moves (h : s.Rooted) {v : RefView} {p : Pc} (hv : s'.refs = v)
    (hpc : s'.pc = Function.update s.pc t p) (hd : ∀ n x, v.data n = some x → n = x)
    (hch : v.children s.refs.init ≠ none) (hi : v.init = s.refs.init)
    (hc : v.created = s.refs.created) (hp : t = s.refs.init → p.inner = false) : s'.Rooted := by
  refine ⟨by rwa [hv], by rwa [hv, hi], ?_, by rw [hv, hi, hc]; exact h.made⟩
  rw [hpc, hv, hi]
  by_cases ht : s.refs.init = t
  · rw [ht, Function.update_self]
    exact hp ht.symm
  · rw [Function.update_of_ne ht]
    exact h.outer

theorem Rooted.step {e : SchedEv} (h : s.Rooted) (hs : s.step e = some s') : s'.Rooted := by
  -- init is at no statement of the inner part
  have hout : ∀ {t p}, s.pc t = p → p.inner = true → t ≠ s.refs.init := by
    rintro t p rfl hp rfl
    rw [h.outer] at hp
    cases hp
  have hupd : ∀ {t : ℕ} {o : Option (List ℕ)}, (t = s.refs.init → o ≠ none) →
      Function.update s.refs.children t o s.refs.init ≠ none := by
    intro t o ho
    by_cases ht : s.refs.init = t
    · rw [ht, Function.update_self]
      exact ho ht.symm
    · rw [Function.update_of_ne ht]
      exact h.heir
  cases step_refs hs with
  | same hv hpc =>
    exact ⟨by rw [hv]; exact h.own, by rw [hv]; exact h.heir, by rw [hv, hpc]; exact h.outer,
      by rw [hv]; exact h.made⟩
  | goes t p hg hv hpc =>
    exact h.moves hv hpc h.own h.heir rfl rfl fun ht => hg.inner ht (by rw [ht]; exact h.outer)
  | spent _ hv hpc => exact ⟨by rw [hv]; exact h.own, by rw [hv]; exact h.heir,
      by rw [hv, hpc]; exact h.outer, by rw [hv]; exact h.made⟩
  | idle c _ hv hpc => exact h.born hv hpc
  | create t _ hv hpc => exact h.born hv hpc
  | record t x _ hv hpc => exact h.moves hv hpc h.own h.heir rfl rfl fun _ => rfl
  | clean c now t x l _ _ _ _ hv hpc =>
    exact h.moves hv hpc h.own (hupd fun _ => by simp) rfl rfl fun _ => rfl
  | push t hp hv hpc =>
    exact h.moves hv hpc h.own h.heir rfl rfl fun ht => absurd ht (hout hp rfl)
  | adopt t x l k data hp _ _ _ hd hv hpc =>
    have hpc' : s'.pc = Function.update s.pc t (s.pc t) := by rw [hpc, Function.update_eq_self]
    refine h.moves hv hpc' (fun n y hy => ?_) ?_ rfl rfl fun ht => absurd ht (hout hp rfl)
    · rcases hd n with h1 | ⟨h1, -⟩
      · exact h.own n y (h1.symm.trans hy)
      · exact absurd (h1.symm.trans hy) (by simp)
    · simp [RefView.adopt]
  | delete t hp hv hpc =>
    have ht := hout hp rfl
    exact h.moves hv hpc h.own (hupd fun hi => absurd hi ht) rfl rfl fun hi => absurd hi ht

theorem schedInit_rooted (n : ℕ) : (schedInit n).Rooted where
  own m x hx := by
    have hd : (schedInit n).refs.data m = if m < 2 then some m else none := by
      show (Function.update (Function.update (fun _ => (⟨none, 0⟩ : QueueNode)) 0 ⟨some 0, 0⟩) 1
        ⟨some 1, 0⟩ m).data = _
      by_cases h1 : m = 1
      · simp [h1]
      · by_cases h0 : m = 0
        · simp [h0]
        · rw [Function.update_of_ne h1, Function.update_of_ne h0, if_neg (by omega)]
    rw [hd] at hx
    split_ifs at hx
    exact Option.some_inj.1 hx
  heir := by
    show (some [] : Option (List ℕ)) ≠ none
    simp
  outer := rfl
  made := Nat.one_lt_two

/-- Every state of every run is `Linked`. -/
theorem linked_of_reach {n : ℕ} {ok : Sched → SchedEv → Prop}
    (h : Reach Sched.step ok (schedInit n) s) : s.Linked := by
  refine (h.invariant (P := Rooted) (schedInit_rooted n) fun s e s' hs _ he => ?_).linked
  exact hs.step he

/-! ## A round of the loop -/

theorem adopt_unjoined (hj : (s.thread x).joiningThread = none) :
    s.adopt t x = .error .nullDeref := by
  have hj' := (setThread_proj (s := s) (t := x) (f := fun T => { T with
    ptid := (s.thread s.initThread).tid }) Thread.joiningThread (by intro T; rfl) x).trans hj
  unfold Sched.adopt
  simp only [hj']

theorem adopt_joined {j : ℕ} (hj : (s.thread x).joiningThread = some j)
    (hk : (s.thread s.initThread).children = some k) : ∃ s', s.adopt t x = .ok s' := by
  set s₁ := s.setThread x fun T => { T with ptid := (s.thread s.initThread).tid } with hs₁
  have hj' : (s₁.thread x).joiningThread = some j :=
    (setThread_proj Thread.joiningThread (by intro T; rfl) x).trans hj
  set s₂ := if (s₁.node j).data = some t then s₁.setNode j fun n => { n with data := none } else s₁
    with hs₂
  have hk' : (s₂.thread s₂.initThread).children = some k := by
    refine Eq.trans ?_ ((setThread_proj (s := s) (t := x) (f := fun T => { T with
      ptid := (s.thread s.initThread).tid }) Thread.children (by intro T; rfl) s.initThread).trans hk)
    rw [hs₂]
    split_ifs <;> rfl
  unfold Sched.adopt
  simp only [← hs₁, hj', ← hs₂, hk']
  exact ⟨_, rfl⟩

theorem exitChildren_unjoined (hl : (s.thread t).children = some l) (hx : l.getLast? = some x)
    (hj : (s.thread x).joiningThread = none) : s.exitChildren t = .error .nullDeref := by
  unfold Sched.exitChildren
  rw [hl]
  simp only [hx]
  exact adopt_unjoined ((setThread_proj Thread.joiningThread (by intro T; rfl) x).trans hj)

theorem exitChildren_joined (ht : t ≠ s.initThread) (hk : (s.thread s.initThread).children = some k)
    (hl : (s.thread t).children = some l) (hx : l.getLast? = some x)
    (hj : (s.thread x).joiningThread ≠ none) : ∃ s', s.exitChildren t = .ok s' := by
  obtain ⟨j, hj⟩ := Option.ne_none_iff_exists'.1 hj
  unfold Sched.exitChildren
  rw [hl]
  simp only [hx]
  refine adopt_joined (k := k) ((setThread_proj Thread.joiningThread (by intro T; rfl) x).trans hj) ?_
  rw [← hk]
  exact congrArg Thread.children (setThread_of_ne ht.symm)

/-! ## The loop -/

/-- The loop has handed the children `l` of `t` over to init. -/
structure Handed (s s' : Sched) (t : ℕ) (l k : List ℕ) : Prop where
  pc : s'.pc t = .exitDelete
  left : (s'.thread t).children = some []
  heir : (s'.thread s.initThread).children = some (l ++ k)
  ptid : ∀ x ∈ l, (s'.thread x).ptid = (s.thread s.initThread).tid
  ptids : ∀ x, x ∉ l → (s'.thread x).ptid = (s.thread x).ptid
  tid : ∀ x, (s'.thread x).tid = (s.thread x).tid
  data : ∀ n, n ≠ t → (s'.node n).data = (s.node n).data
  init : s'.initThread = s.initThread

/-- A round before the rest of the loop. -/
theorem Handed.cons {s₁ : Sched} (ha : Adopts s s₁ t x l)
    (hd : ∀ n, n ≠ t → (s₁.node n).data = (s.node n).data)
    (h : Handed s₁ s' t l.dropLast (x :: k)) : Handed s s' t l k := by
  have hlx : l.dropLast ++ [x] = l := List.dropLast_append_getLast? x ha.last
  have hmem : ∀ y, y ∈ l ↔ y ∈ l.dropLast ∨ y = x := fun y => by
    nth_rewrite 1 [← hlx]
    simp
  refine ⟨h.pc, h.left, ?_, fun y hy => ?_, fun y hy => ?_, fun y => (h.tid y).trans (ha.tid y),
    fun n hn => (h.data n hn).trans (hd n hn), h.init.trans ha.init⟩
  · have := h.heir
    rw [ha.init] at this
    rw [this, Option.some_inj]
    nth_rewrite 2 [← hlx]
    simp
  · have hinit : (s₁.thread s₁.initThread).tid = (s.thread s.initThread).tid := by
      rw [ha.init, ha.tid]
    by_cases hy' : y ∈ l.dropLast
    · exact (h.ptid y hy').trans hinit
    · have hyx : y = x := ((hmem y).1 hy).resolve_left hy'
      subst hyx
      exact (h.ptids y hy').trans ha.ptid
  · have hn : y ∉ l.dropLast ∧ y ≠ x := by
      rw [hmem] at hy
      exact not_or.1 hy
    exact (h.ptids y hn.1).trans (ha.ptids y hn.2)

/-- The round as the step that the loop repeats. -/
theorem exitAllChildren_succ {s₁ : Sched} (m : ℕ) (hr : s.exitChildren t = .ok s₁) :
    Sched.exitAllChildren t (m + 1) s
      = if s₁.pc t = .exitChildren then Sched.exitAllChildren t m s₁ else .ok s₁ := by
  rw [Sched.exitAllChildren, hr]
  rfl

/-- A round that hands `x` over. -/
theorem exitChildren_round (hown : ∀ n x, (s.node n).data = some x → n = x)
    (ht : t ≠ s.initThread) (hk : (s.thread s.initThread).children = some k)
    (hl : (s.thread t).children = some l) (hx : l.getLast? = some x)
    (hj : (s.thread x).joiningThread ≠ none) : ∃ s₁, s.exitChildren t = .ok s₁ ∧ Adopts s s₁ t x l
      ∧ (∀ n, n ≠ t → (s₁.node n).data = (s.node n).data)
      ∧ ∀ n y, (s₁.node n).data = some y → n = y := by
  obtain ⟨s₁, hr⟩ := exitChildren_joined ht hk hl hx hj
  have hne : ¬ (s.thread t).children = some [] := by
    rw [hl, Option.some_inj]
    rintro rfl
    cases hx
  refine ⟨s₁, hr, ?_, ?_⟩
  · rcases exitChildren_cases hr with ⟨h0, -⟩ | ⟨x', l', ha⟩
    · exact absurd h0 hne
    · obtain rfl : l' = l := Option.some_inj.1 (ha.from_.symm.trans hl)
      obtain rfl : x' = x := Option.some_inj.1 (ha.last.symm.trans hx)
      exact ha
  · rcases exitChildren_adopt hr with ⟨h0, -⟩ | ⟨x', l', k', data, -, -, -, -, hd, hv, -⟩
    · exact absurd h0 hne
    · have hdata : ∀ n, (s₁.node n).data = data n := fun n => congrFun (congrArg RefView.data hv) n
      refine ⟨fun n hn => ?_, fun n y hy => ?_⟩
      · rw [hdata]
        rcases hd n with h1 | ⟨-, h1⟩
        · exact h1
        · exact absurd (hown n t h1) hn
      · rw [hdata] at hy
        rcases hd n with h1 | ⟨h1, -⟩
        · exact hown n y (h1.symm.trans hy)
        · rw [h1] at hy
          cases hy

/-- The loop, for more rounds than there are children. -/
theorem exitAllChildren_spec : ∀ (m : ℕ) {s : Sched} {l k : List ℕ},
    (∀ n x, (s.node n).data = some x → n = x) → t ≠ s.initThread → s.pc t = .exitChildren →
    (s.thread t).children = some l → (s.thread s.initThread).children = some k → l.length < m →
    (∀ x ∈ l, (s.thread x).joiningThread ≠ none)
        ∧ (∃ s', Sched.exitAllChildren t m s = .ok s' ∧ Handed s s' t l k)
      ∨ (∃ x ∈ l, (s.thread x).joiningThread = none)
        ∧ Sched.exitAllChildren t m s = .error .nullDeref
  | 0, _, _, _, _, _, _, _, _, hm => absurd hm (Nat.not_lt_zero _)
  | m + 1, s, l, k, hown, ht, hp, hl, hk, hm => by
    rcases hx : l.getLast? with _ | x
    · rw [List.getLast?_eq_none_iff] at hx
      subst hx
      have hr : s.exitChildren t = .ok (s.goto t .exitDelete) := by
        rw [Sched.exitChildren, hl]
        rfl
      refine .inl ⟨by simp, s.goto t .exitDelete, ?_, goto_pc_self, hl, hk, by simp, fun _ _ => rfl,
        fun _ => rfl, fun _ _ => rfl, rfl⟩
      rw [exitAllChildren_succ m hr, goto_pc_self, if_neg (by simp)]
    have hxl : x ∈ l := List.mem_of_getLast? hx
    by_cases hj : (s.thread x).joiningThread = none
    · refine .inr ⟨⟨x, hxl, hj⟩, ?_⟩
      rw [Sched.exitAllChildren, exitChildren_unjoined hl hx hj]
      rfl
    obtain ⟨s₁, hr, ha, hd, hown₁⟩ := exitChildren_round hown ht hk hl hx hj
    have hp₁ : s₁.pc t = .exitChildren := by rw [ha.pc, hp]
    obtain ⟨k', hk', hk₁⟩ := ha.heir ht
    obtain rfl : k' = k := Option.some_inj.1 (hk'.symm.trans hk)
    have hlen : l.dropLast.length < m := by
      have := List.length_pos_of_mem hxl
      rw [List.length_dropLast]
      omega
    have hlx : ∀ y, y ∈ l ↔ y ∈ l.dropLast ∨ y = x := fun y => by
      nth_rewrite 1 [← List.dropLast_append_getLast? x hx]
      simp
    rw [exitAllChildren_succ m hr, if_pos hp₁]
    rcases exitAllChildren_spec m hown₁ (by rwa [ha.init]) hp₁ (ha.left ht) (by rwa [ha.init]) hlen with
      ⟨hall, s', hr', hh⟩ | ⟨⟨y, hy, hny⟩, hr'⟩
    · refine .inl ⟨fun y hy => ?_, s', hr', hh.cons ha hd⟩
      rcases (hlx y).1 hy with hy | rfl
      · rw [← ha.joining]
        exact hall y hy
      · exact hj
    · rw [ha.joining] at hny
      exact .inr ⟨⟨y, (hlx y).2 (.inl hy), hny⟩, hr'⟩

/-! ## `thread_exit` -/

theorem exitDelete_emptied (hl : (s.thread t).children = some []) : s.exitDelete t
    = .ok ((s.setThread t fun T => { T with children := none }).goto t .exitSearch) := by
  rw [Sched.exitDelete, if_pos hl]

/-- A joiner that the search found is made ready, and nothing that `Reparents` reads changes. -/
theorem exitWake_found (s : Sched) (t : ℕ) : ∃ s', (s.exitSearch t).exitWake t
      ((s.thread t).joiningThread.bind fun j => (s.node j).data) = .ok s'
    ∧ (∀ y, (s'.thread y).children = (s.thread y).children ∧ (s'.thread y).ptid = (s.thread y).ptid
      ∧ (s'.thread y).tid = (s.thread y).tid) ∧ s'.node = s.node := by
  rcases hj : (s.thread t).joiningThread with _ | n
  · exact ⟨_, rfl, fun _ => ⟨rfl, rfl, rfl⟩, rfl⟩
  rcases hd : (s.node n).data with _ | j
  · rw [Option.bind_some, hd]
    exact ⟨_, rfl, fun _ => ⟨rfl, rfl, rfl⟩, rfl⟩
  rw [Option.bind_some, hd]
  have hj' : ((s.exitSearch t).thread t).joiningThread = some n := hj
  have hproj : ∀ {β : Type} (g : Thread → β), (∀ T, g { T with state := .ready } = g T) →
      ∀ y, g ((s.setState j .ready).thread y) = g (s.thread y) := fun g hg y => setThread_proj g hg y
  simp only [Sched.exitWake]
  split_ifs
  · rw [hj']
    exact ⟨_, rfl, fun y => ⟨hproj Thread.children (fun _ => rfl) y, hproj Thread.ptid (fun _ => rfl) y,
      hproj Thread.tid (fun _ => rfl) y⟩, rfl⟩
  · exact ⟨_, rfl, fun _ => ⟨rfl, rfl, rfl⟩, rfl⟩

/-- `thread_exit` hands the children over, or one of them has no joiner. -/
theorem Linked.threadExitBody (h : s.Linked) (ht : t ≠ s.initThread)
    (hl : (s.thread t).children = some l) :
    (∀ x ∈ l, (s.thread x).joiningThread ≠ none)
        ∧ (∃ s', s.threadExitBody t = .ok s' ∧ Reparents s s' t l)
      ∨ (∃ x ∈ l, (s.thread x).joiningThread = none) ∧ s.threadExitBody t = .error .nullDeref := by
  obtain ⟨k, hk⟩ := Option.ne_none_iff_exists'.1 h.heir
  -- the thread as the loop finds it
  set s₄ := ((s.exitZombie t).exitTestInit t).goto t .exitPush |>.exitPush t with hs₄
  have hproj : ∀ {β : Type} (g : Thread → β), (∀ T, g { T with state := .zombie } = g T) →
      ∀ y, g (s₄.thread y) = g (s.thread y) := fun g hg y => setThread_proj g hg y
  have hl₄ : (s₄.thread t).children = some l := (hproj Thread.children (fun _ => rfl) t).trans hl
  have hk₄ : (s₄.thread s₄.initThread).children = some k :=
    (hproj Thread.children (fun _ => rfl) s.initThread).trans hk
  have hj₄ : ∀ x, (s₄.thread x).joiningThread = (s.thread x).joiningThread :=
    hproj Thread.joiningThread fun _ => rfl
  have hbody : s.threadExitBody t = (do
      let s ← Sched.exitAllChildren t (l.length + 1) s₄
      let s ← s.exitDelete t
      let s ← (s.exitSearch t).exitWake t ((s.thread t).joiningThread.bind fun j => (s.node j).data)
      .ok (s.goto t .exitSched)) := by
    have hi : t ≠ ((s.exitZombie t).exitTestInit t).initThread := ht
    unfold Sched.threadExitBody
    simp only [if_neg hi, ← hs₄, hl₄]
    rfl
  rw [hbody]
  rcases exitAllChildren_spec (l.length + 1) (s := s₄) h.own ht goto_pc_self hl₄ hk₄ (Nat.lt_succ_self _)
    with ⟨hall, s₅, hr, hh⟩ | ⟨⟨x, hx, hj⟩, hr⟩
  · refine .inl ⟨fun x hx => by rw [← hj₄]; exact hall x hx, ?_⟩
    have hr₆ := exitDelete_emptied hh.left
    set s₆ := (s₅.setThread t fun T => { T with children := none }).goto t .exitSearch with hs₆
    obtain ⟨s₇, hr₇, hth, hnode⟩ := exitWake_found s₆ t
    have h6 : ∀ {β : Type} (g : Thread → β), (∀ T, g { T with children := none } = g T) →
      ∀ y, g (s₆.thread y) = g (s₅.thread y) := fun g hg y => setThread_proj g hg y
    have htid : ∀ y, (s₇.thread y).tid = (s.thread y).tid := fun y =>
      (hth y).2.2.trans ((h6 Thread.tid (fun _ => rfl) y).trans
        ((hh.tid y).trans (hproj Thread.tid (fun _ => rfl) y)))
    refine ⟨s₇.goto t .exitSched, ?_, ?_, ⟨k, hk, ?_⟩, fun x hx => ?_, htid, fun n hn => ?_⟩
    · rw [hr]
      show (s₅.exitDelete t >>= _) = _
      rw [hr₆]
      show ((s₆.exitSearch t).exitWake t _ >>= _) = _
      rw [hr₇]
      rfl
    · refine (hth t).1.trans ?_
      show ((s₅.setThread t fun T => { T with children := none }).thread t).children = none
      rw [setThread_self]
    · refine (hth s.initThread).1.trans (Eq.trans ?_ hh.heir)
      show ((s₅.setThread t fun T => { T with children := none }).thread s.initThread).children = _
      rw [setThread_of_ne ht.symm]
      rfl
    · refine (hth x).2.1.trans ((h6 Thread.ptid (fun _ => rfl) x).trans ((hh.ptid x hx).trans ?_))
      exact (hproj Thread.tid (fun _ => rfl) s.initThread).trans (htid s.initThread).symm
    · show (s₇.node n).data = _
      rw [hnode]
      exact hh.data n hn
  · rw [hj₄] at hj
    rw [hr]
    exact .inr ⟨⟨x, hx, hj⟩, rfl⟩

/-- The children of a thread that exits are handed over to init exactly when each has a joiner
recorded. -/
theorem orphans_reparented_iff (h : s.Linked) (ht : t ≠ s.initThread)
    (hl : (s.thread t).children = some l) :
    (∃ s', s.threadExitBody t = .ok s' ∧ Reparents s s' t l)
      ↔ ∀ x ∈ l, (s.thread x).joiningThread ≠ none := by
  rcases h.threadExitBody ht hl with ⟨hall, hex⟩ | ⟨⟨x, hx, hj⟩, herr⟩
  · exact iff_of_true hex hall
  · refine iff_of_false ?_ fun hall => hall x hx hj
    rintro ⟨s', hs', -⟩
    rw [herr] at hs'
    cases hs'

/-- Thread 2 exits after init has begun to wait for 3, which 2 created. -/
theorem orphans_reparented_joined : ∃ s s' : Sched, Reach Sched.step anyStep (schedInit 1) s
    ∧ s.activeThread 0 = some 2 ∧ s.pc 2 = .exitZombie ∧ (s.thread 2).children = some [3]
    ∧ s.threadExitBody 2 = .ok s' ∧ Reparents s s' 2 [3] := by
  have hrun : ((runEvents (guarded Sched.step anyStep) (schedInit 1)
      [.timer 0 0, .call 0 0 (.create 0 0 6), .timer 0 0, .call 0 0 (.create 0 0 6), .timer 0 0,
        .call 0 0 (.wait (some 3)), .stmt 0 0, .stmt 0 0, .stmt 0 0, .stmt 0 0, .stmt 0 0,
        .timer 0 0, .call 0 0 (.exit none)]).map
      fun s => (s.activeThread 0, s.pc 2, (s.thread 2).children, s.initThread,
        (s.thread 3).joiningThread)) = some (some 2, .exitZombie, some [3], 1, some 1) := by
    decide +kernel
  obtain ⟨s, h, hs⟩ := Option.map_eq_some_iff.1 hrun
  simp only [Prod.mk.injEq] at hs
  obtain ⟨h1, h2, h3, h4, h5⟩ := hs
  obtain ⟨s', hr, hp⟩ := (orphans_reparented_iff (linked_of_reach (.of_run h)) (by rw [h4]; decide) h3).2
    (by simp [h5])
  exact ⟨s, s', .of_run h, h1, h2, h3, hr, hp⟩

/-- Thread 2 exits and nobody has joined 3, which it created. -/
theorem orphans_null_dereference : ∃ s : Sched, Reach Sched.step anyStep (schedInit 1) s
    ∧ s.activeThread 0 = some 2 ∧ s.pc 2 = .exitZombie ∧ (s.thread 2).children = some [3]
    ∧ s.threadExitBody 2 = .error .nullDeref := by
  have hrun : ((runEvents (guarded Sched.step anyStep) (schedInit 1)
      [.timer 0 0, .call 0 0 (.create 0 0 6), .timer 0 0, .call 0 0 (.create 0 0 6),
        .call 0 0 (.exit none)]).map
      fun s => (s.activeThread 0, s.pc 2, (s.thread 2).children, s.initThread,
        (s.thread 3).joiningThread)) = some (some 2, .exitZombie, some [3], 1, none) := by
    decide +kernel
  obtain ⟨s, h, hs⟩ := Option.map_eq_some_iff.1 hrun
  simp only [Prod.mk.injEq] at hs
  obtain ⟨h1, h2, h3, h4, h5⟩ := hs
  have hlinked : s.Linked := linked_of_reach (.of_run h)
  rcases hlinked.threadExitBody (t := 2) (by rw [h4]; decide) h3 with ⟨hall, -⟩ | ⟨-, herr⟩
  · exact absurd h5 (hall 3 (by simp))
  · exact ⟨s, .of_run h, h1, h2, h3, herr⟩

end Sched

end RTLKIM

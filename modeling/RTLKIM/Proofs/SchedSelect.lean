import RTLKIM.Proofs.SchedStmt

/-!
# `select_thread`

`select_thread` in three parts: the thread switched from is put back, the sleepers that are due are
made ready, and a ready thread is elected; between the first and the last the CPU has no active
thread. The idle thread of the CPU is ready then, so one is always found. `Shuffle` says what the
whole leaves as it was.
-/

namespace RTLKIM

/-- What becomes of the thread switched from, by the table its node goes to. -/
theorem Sit.leave {T : Thread} {p q : Pc} {on : Prop} {loc : Option Table} (h : Sit T q on loc)
    (hp : Leaves q p) (h1 : T.state ≠ .running) (h2 : T.state ≠ .sleeping) :
    Sit T p False loc := by
  cases h with
  | running hs | drowsy hs | sleeping hs => simp [hs] at h1 h2
  | ready hs hg hy =>
    refine .ready hs ?_ (by simp)
    cases hp with
    | timer => exact hg
    | sched | wait => rfl
    | exit => cases hg
  | waiting o hs hq hy =>
    refine .waiting o hs ?_ (by simp)
    cases hp with
    | timer => exact hq
    | sched => rfl
    | wait | exit => cases hq
  | joining hs hq hy =>
    refine .joining hs ?_ (by simp)
    cases hp with
    | timer => exact hq
    | wait => rfl
    | sched | exit => cases hq
  | gone hs hg =>
    refine .gone hs ?_
    cases hp with
    | timer => exact hg
    | exit => rfl
    | sched | wait => cases hg
  | zombie hs hg =>
    refine .zombie hs ?_
    cases hp with
    | timer => exact hg
    | exit => rfl
    | sched | wait => cases hg

theorem Leaves.gone {p q : Pc} (h : Leaves q p) : p.gone = q.gone := by
  cases h <;> rfl

theorem Leaves.pushed {p q : Pc} (h : Leaves q p) : p.pushed = q.pushed := by
  cases h <;> rfl

theorem Leaves.deleted {p q : Pc} (h : Leaves q p) : p.deleted = q.deleted := by
  cases h <;> rfl

theorem Leaves.inner {p q : Pc} (h : Leaves q p) : p.inner = q.inner := by
  cases h <;> rfl

/-- The states that `select_thread` changes. -/
def ThreadState.runnable : ThreadState → Bool
  | .running | .ready | .sleeping => true
  | _ => false

namespace Sched

variable {s s' s'' : Sched} {act : ℕ → Option ℕ} {t x c now n : ℕ} {p : Pc}

theorem Core.notIdle_of_state (h : s.Core act) (h1 : (s.thread t).state ≠ .running)
    (h2 : (s.thread t).state ≠ .ready) : s.NotIdle t := by
  intro c hc hi
  rcases ((h.good t).idle c hc hi).2.2.2 with h3 | h3
  · exact h1 h3
  · exact h2 h3

theorem not_on (hc : act c = none) (ha : (s.thread x).cpuAffinity = c) : ¬ s.On act x := by
  unfold On
  rw [ha, hc]
  simp

/-- A CPU that gets another active thread, or none, is no matter to `x`. -/
theorem update_active_iff {o : Option ℕ} {c' : ℕ} (h1 : act c ≠ some x) (h2 : o ≠ some x) :
    Function.update act c o c' = some x ↔ act c' = some x := by
  by_cases hc : c' = c
  · rw [hc, Function.update_self]
    exact iff_of_false h2 h1
  · rw [Function.update_of_ne hc]

/-! ## What is left as it was -/

/-- Only tables that `select_thread` uses change, and the states of threads that are not blocked. -/
structure Shuffle (s s' : Sched) : Prop where
  pc : s'.pc = s.pc
  thread : ∀ x, s'.thread x = { s.thread x with state := (s'.thread x).state }
  state : ∀ x, (s'.thread x).state = (s.thread x).state
    ∨ (s.thread x).state.runnable = true ∧ (s'.thread x).state.runnable = true
  data : ∀ x, (s'.node x).data = (s.node x).data
  zombie : s'.table .zombie = s.table .zombie
  active : s'.activeThread = s.activeThread
  created : s'.created = s.created
  freed : s'.freed = s.freed
  init : s'.initThread = s.initThread
  idle : s'.idleThread = s.idleThread
  creator : s'.creator = s.creator

namespace Shuffle

variable {q : Table}

theorem refl (s : Sched) : Shuffle s s :=
  ⟨rfl, fun _ => rfl, fun _ => .inl rfl, fun _ => rfl, rfl, rfl, rfl, rfl, rfl, rfl, rfl⟩

theorem trans (h : Shuffle s s') (h' : Shuffle s' s'') : Shuffle s s'' where
  pc := h'.pc.trans h.pc
  thread x := by
    rw [h'.thread x, h.thread x]
  state x := by
    rcases h.state x with h1 | h1 <;> rcases h'.state x with h2 | h2
    · exact .inl (h2.trans h1)
    · exact .inr (by rwa [h1] at h2)
    · exact .inr ⟨h1.1, by rw [h2]; exact h1.2⟩
    · exact .inr ⟨h1.1, h2.2⟩
  data x := (h'.data x).trans (h.data x)
  zombie := h'.zombie.trans h.zombie
  active := h'.active.trans h.active
  created := h'.created.trans h.created
  freed := h'.freed.trans h.freed
  init := h'.init.trans h.init
  idle := h'.idle.trans h.idle
  creator := h'.creator.trans h.creator

theorem popped (hq : Table.zombie ≠ q) : Shuffle s (s.popped q) :=
  ⟨rfl, fun _ => rfl, fun _ => .inl rfl, fun _ => rfl, popped_table_of_ne hq, rfl, rfl, rfl, rfl, rfl,
    rfl⟩

theorem push (hq : Table.zombie ≠ q) : Shuffle s (s.push q t) :=
  ⟨rfl, fun _ => rfl, fun _ => .inl rfl, fun _ => rfl, push_table_of_ne hq, rfl, rfl, rfl, rfl, rfl,
    rfl⟩

theorem pushPrio {k : ℕ} (hq : Table.zombie ≠ q) : Shuffle s (s.pushPrio q t k) :=
  ⟨rfl, fun _ => rfl, fun _ => .inl rfl, fun x => (Same.setNode_priority (x := x) k).node,
    pushPrio_table_of_ne hq, rfl, rfl, rfl, rfl, rfl, rfl⟩

theorem setState {st : ThreadState} (h1 : (s.thread t).state.runnable = true)
    (h2 : st.runnable = true) : Shuffle s (s.setState t st) := by
  have e : (s.setState t st).thread t = { s.thread t with state := st } := Function.update_self _ _ _
  have e' : ∀ x, x ≠ t → (s.setState t st).thread x = s.thread x :=
    fun x hx => Function.update_of_ne hx _ _
  refine ⟨rfl, fun x => ?_, fun x => ?_, fun _ => rfl, rfl, rfl, rfl, rfl, rfl, rfl, rfl⟩ <;>
    by_cases hx : x = t
  · subst hx
    rw [e]
  · rw [e' x hx]
  · subst hx
    rw [e]
    exact .inr ⟨h1, h2⟩
  · exact .inl (by rw [e' x hx])

theorem requeue : Shuffle s (s.requeue c t) := by
  unfold Sched.requeue
  split_ifs with h1 h2
  · exact (setState (by rw [h1]; rfl) rfl).trans (push (by simp))
  · exact pushPrio (by simp)
  · exact refl s

end Shuffle

/-! ## The thread switched from -/

theorem Same.requeue (hx : x ≠ t) : Same s (s.requeue c t) x := by
  unfold Sched.requeue
  split_ifs
  · exact (Same.setState _ hx).trans (.push _ hx)
  · exact .pushPrio _ _ hx
  · exact .refl x

/-- A thread that runs is made ready. -/
theorem requeue_awake (hs : (s.thread t).state = .running ∨ (s.thread t).state = .ready) :
    ((s.requeue c t).thread t).state = .ready := by
  unfold Sched.requeue
  split_ifs with h1 h2
  · have e : ((s.setState t .ready).push (.active c (s.thread t).priority) t).thread t
        = { s.thread t with state := .ready } := Function.update_self _ _ _
    rw [e]
  · simp [h2] at hs
  · exact hs.resolve_left h1

/-- The node goes where the state of the thread says. -/
theorem Core.requeue_place (h : s.Core act) (hc : act c = some t) (hp : Leaves (s.pc t) p) :
    ∃ loc, Located ((s.goto t p).requeue c t).table t loc
      ∧ Sit (((s.goto t p).requeue c t).thread t) p False loc := by
  set s₁ := s.goto t p with hs₁
  have ha := (h.active c t hc).1
  have hth : s₁.thread t = s.thread t := rfl
  obtain ⟨loc, hl, hsit⟩ := (h.good t).place
  rw [Sched.requeue, hth]
  split_ifs with h1 h2
  · cases hsit with
    | running _ _ hg =>
      have e : ((s₁.setState t .ready).push (.active c (s.thread t).priority) t).thread t
          = { s.thread t with state := .ready } := Function.update_self _ _ _
      have hl' : Located (s₁.setState t .ready).table t none := hl
      refine ⟨_, Located.push hl', ?_⟩
      rw [e, ← ha]
      exact .ready rfl (by rw [hp.gone]; exact hg) (by simp)
    | ready hs | drowsy hs | sleeping hs | waiting _ hs | joining hs => simp [hs] at h1
    | gone hs | zombie hs => simp [h1] at hs
  · cases hsit with
    | running hs | ready hs | waiting _ hs | joining hs => simp [hs] at h2
    | gone hs | zombie hs => simp [h2] at hs
    | sleeping _ hno => exact absurd (h.on hc) hno
    | drowsy _ _ hq =>
      have hl' : Located s₁.table t none := hl
      refine ⟨_, Located.pushPrio hl', ?_⟩
      rw [← ha]
      refine .sleeping h2 (by simp) ?_
      rw [hq] at hp
      cases hp <;> rfl
  · exact ⟨loc, hl, hsit.leave hp h1 h2⟩

/-- The thread that gives up its CPU at `p` is still a good one. -/
theorem Core.requeue_good (h : s.Core act) (hc : act c = some t) (hp : Leaves (s.pc t) p) :
    ((s.goto t p).requeue c t).Good (Function.update act c none) t := by
  set s' := (s.goto t p).requeue c t with hs'
  obtain ⟨ha, hlt⟩ := h.active c t hc
  have hgt := h.good t
  have hsh : Shuffle (s.goto t p) s' := .requeue
  have hth : s'.thread t = { s.thread t with state := (s'.thread t).state } := hsh.thread t
  have hpc : s'.pc t = p := by
    rw [hsh.pc]
    exact Function.update_self _ _ _
  have hoff : ¬ s'.On (Function.update act c none) t :=
    not_on (Function.update_self _ _ _) (by rw [hth]; exact ha)
  have hcr : s'.created = s.created := hsh.created
  have hin : s'.initThread = s.initThread := hsh.init
  refine ⟨?_, by rw [hth]; exact hgt.prio, ?_, ?_, ?_, ?_, ?_, ?_, ?_, ?_,
    fun hon => absurd hon hoff⟩
  · obtain ⟨loc, hl, hsit⟩ := h.requeue_place hc hp
    refine ⟨loc, hl, ?_⟩
    rw [hpc, propext (iff_false_intro hoff)]
    exact hsit
  · rw [hsh.data, hpc, hp.gone]
    exact hgt.node
  · rw [hpc, hp.pushed, hcr, hin, hsh.freed, hsh.zombie]
    exact hgt.zombies
  · rw [hpc, hp.deleted, hcr, hth]
    exact hgt.children
  · rw [hpc, hth]
    intro hd
    rw [hd] at hp
    cases hq : s.pc t <;> rw [hq] at hp <;> cases hp
    exact hgt.emptied hq
  · rw [hpc, hth]
    intro j hj
    rw [hj] at hp
    cases hq : s.pc t <;> rw [hq] at hp <;> cases hp
    exact hgt.found j hq
  · rw [hpc, hp.inner, hth, hin]
    exact hgt.init
  · intro c' hc' hi
    rw [hsh.active] at hc'
    rw [hsh.idle] at hi
    obtain ⟨h1, h2, h3, h4⟩ := hgt.idle c' hc' hi
    rw [h1] at hp
    refine ⟨?_, by rw [hth]; exact h2, by rwa [hcr], .inr (requeue_awake h4)⟩
    rw [hpc]
    cases hp
    rfl
  · intro hge
    rw [hcr] at hge
    omega

/-- The CPU switches away from `t`, whose node goes where its state says. -/
theorem Core.requeue (h : s.Core act) (hc : act c = some t) (hp : Leaves (s.pc t) p) :
    ((s.goto t p).requeue c t).Core (Function.update act c none) := by
  set s' := (s.goto t p).requeue c t with hs'
  have hsame : ∀ x, x ≠ t → Same s s' x := fun x hx => (Same.goto p hx).trans (.requeue hx)
  have hsh : Shuffle (s.goto t p) s' := .requeue
  have hstill : Still s s' := ⟨hsh.created, hsh.init, hsh.idle, fun c' hc' => by rwa [hsh.active] at hc'⟩
  refine ⟨fun x => ?_, fun c' x hx => ?_, by rw [hstill.init, hstill.created]; exact h.init⟩
  · by_cases hx : x = t
    · subst hx
      exact h.requeue_good hc hp
    · refine (h.good x).same (hsame x hx) (hstill.at x) ?_
      unfold On
      rw [(hsame x hx).affinity]
      exact (update_active_iff (by simpa [hc] using Ne.symm hx) (by simp)).symm
  · by_cases hcc : c' = c
    · subst hcc
      simp at hx
    · rw [Function.update_of_ne hcc] at hx
      have hxt : x ≠ t := by
        rintro rfl
        exact hcc ((h.active c' x hx).1.symm.trans (h.active c x hc).1)
      rw [(hsame x hxt).affinity, hstill.created]
      exact h.active c' x hx

/-! ## The sleepers -/

/-- A node in the sleeping table is that of a sleeper of the CPU. -/
theorem Core.sleeper (h : s.Core act) (hn : n ∈ s.table (.sleeping c)) :
    Located s.table n (some (.sleeping c)) ∧ (s.thread n).state = .sleeping
      ∧ (s.thread n).cpuAffinity = c ∧ ¬ s.On act n ∧ (s.pc n).parks = true
      ∧ (s.node n).data = some n := by
  have hgn := h.good n
  obtain ⟨loc, hl, hsit⟩ := hgn.place
  obtain rfl := hl.eq_of_mem hn
  generalize hq : some (Table.sleeping c) = q at hsit
  cases hsit with
  | running | ready | drowsy | waiting | joining | gone | zombie => simp at hq
  | sleeping h1 h2 h3 =>
    obtain rfl : c = (s.thread n).cpuAffinity := by simpa using hq
    refine ⟨hl, h1, rfl, h2, h3, hgn.node.resolve_right fun hg => ?_⟩
    simp [Pc.not_gone_of_parks h3] at hg

/-- A sleeper moved from the table, with the state and the table it gets. -/
theorem Core.moveSleeper (h : s.Core act) (hn : (s.table (.sleeping c)).getLast? = some n)
    (hs : Still s s') (hx : ∀ x, x ≠ n → Same (s.popped (.sleeping c)) s' x)
    (hth : s'.thread n = { s.thread n with state := (s'.thread n).state }) (hpc : s'.pc n = s.pc n)
    (hnode : (s'.node n).data = (s.node n).data)
    (hplace : ∃ loc, Located s'.table n loc ∧ Sit (s'.thread n) (s.pc n) (s.On act n) loc) :
    s'.Core act := by
  obtain ⟨-, hst, -, -, hpk, -⟩ := h.sleeper (List.mem_of_getLast? hn)
  have hgn := h.good n
  have hlt := h.lt_created (t := n) (by intro hp; simp [hp, Pc.parks] at hpk)
  have hpu := Pc.pushed_of_not_gone (Pc.not_gone_of_parks hpk)
  refine h.change hlt (h.notIdle_of_state (by simp [hst]) (by simp [hst])) hs
    (fun x hxn => (Same.popped hn hxn).trans (hx x hxn)) (by rw [hth]) (by rwa [hpc])
    (by rw [hth]; exact hgn.prio) hnode (by rw [hpc]; exact id) (by rw [hpc, hpu]; simp)
    (by rw [hpc, hth]; exact hgn.children hlt) (by rw [hpc, hth]; exact hgn.emptied)
    (by rw [hpc, hth]; exact hgn.found) (by rw [hpc, hth]; exact hgn.init)
    (by rw [hpc]; exact hgn.stays)

theorem Core.wakeUp (h : s.Core act) (hn : (s.table (.sleeping c)).getLast? = some n) :
    (((s.popped (.sleeping c)).setState n .ready).push (.active c (s.thread n).priority) n).Core
      act := by
  obtain ⟨hl, hst, ha, ho, hpk, -⟩ := h.sleeper (List.mem_of_getLast? hn)
  set s' := ((s.popped (.sleeping c)).setState n .ready).push (.active c (s.thread n).priority) n
    with hs'
  have e : s'.thread n = { s.thread n with state := .ready } := Function.update_self _ _ _
  have hl' : Located ((s.popped (.sleeping c)).setState n .ready).table n none := Located.popped hl hn
  refine h.moveSleeper hn ⟨rfl, rfl, rfl, fun _ h => h⟩
    (fun x hx => (Same.setState _ hx).trans (.push _ hx)) (by rw [e]) rfl rfl
    ⟨_, Located.push hl', ?_⟩
  rw [e, ← ha]
  exact .ready rfl (Pc.not_gone_of_parks hpk) fun h => absurd h ho

theorem Core.keepAsleep (h : s.Core act) (hn : (s.table (.sleeping c)).getLast? = some n) (k : ℕ) :
    ((s.popped (.sleeping c)).pushPrio (.sleeping c) n k).Core act := by
  obtain ⟨hl, hst, ha, ho, hpk, -⟩ := h.sleeper (List.mem_of_getLast? hn)
  have hl' : Located (s.popped (.sleeping c)).table n none := Located.popped hl hn
  refine h.moveSleeper hn ⟨rfl, rfl, rfl, fun _ h => h⟩ (fun x hx => .pushPrio _ _ hx) rfl rfl
    (Same.setNode_priority (s := s.popped (.sleeping c)) (x := n) (t := n) k).node
    ⟨_, Located.pushPrio hl', ?_⟩
  have e : ((s.popped (.sleeping c)).pushPrio (.sleeping c) n k).thread n = s.thread n := rfl
  rw [e, ← ha]
  exact .sleeping hst ho hpk

/-- What the rounds of the loop keep: a node without a thread is dropped, one that is due is moved,
and the first that is not is put back. -/
theorem wake_rule {P : Sched → Prop}
    (hdrop : ∀ s n, P s → (s.table (.sleeping c)).getLast? = some n → (s.node n).data = none →
      P (s.popped (.sleeping c)))
    (hmove : ∀ s n t, P s → (s.table (.sleeping c)).getLast? = some n → (s.node n).data = some t →
      P (((s.popped (.sleeping c)).setState t .ready).push (.active c (s.thread t).priority) n))
    (hback : ∀ s n t, P s → (s.table (.sleeping c)).getLast? = some n → (s.node n).data = some t →
      P ((s.popped (.sleeping c)).pushPrio (.sleeping c) n ((s.thread t).wakeupTime % 2 ^ 32))) :
    ∀ (k : ℕ) {s : Sched}, P s → P (Sched.wake c now k s)
  | 0, _, h => h
  | k + 1, s, h => by
    unfold Sched.wake
    rcases hn : (s.table (.sleeping c)).getLast? with _ | n
    · exact h
    simp only []
    rcases ht : (s.node n).data with _ | t
    · exact wake_rule hdrop hmove hback k (hdrop s n h hn ht)
    simp only []
    split_ifs
    · exact wake_rule hdrop hmove hback k (hmove s n t h hn ht)
    · exact hback s n t h hn ht

theorem Core.wake (k : ℕ) (h : s.Core act) :
    (wake c now k s).Core act ∧ Shuffle s (wake c now k s) := by
  refine wake_rule (P := fun s' => s'.Core act ∧ Shuffle s s') ?_ ?_ ?_ k ⟨h, .refl s⟩
  · rintro s₁ n ⟨h₁, -⟩ hn hdata
    rw [(h₁.sleeper (List.mem_of_getLast? hn)).2.2.2.2.2] at hdata
    cases hdata
  · rintro s₁ n t ⟨h₁, hsh⟩ hn ht
    obtain ⟨-, hst, -, -, -, hdata⟩ := h₁.sleeper (List.mem_of_getLast? hn)
    obtain rfl : n = t := Option.some_inj.1 (hdata.symm.trans ht)
    have hpop : Shuffle s₁ (s₁.popped (.sleeping c)) := .popped (by simp)
    refine ⟨h₁.wakeUp hn, (hsh.trans hpop).trans ?_⟩
    exact (Shuffle.setState (s := s₁.popped (.sleeping c)) (hst ▸ rfl) rfl).trans (.push (by simp))
  · rintro s₁ n t ⟨h₁, hsh⟩ hn -
    have hpop : Shuffle s₁ (s₁.popped (.sleeping c)) := .popped (by simp)
    exact ⟨h₁.keepAsleep hn _, (hsh.trans hpop).trans (.pushPrio (by simp))⟩

/-! ## The election -/

/-- The table and the node that `firstReady` gives. -/
theorem firstReady_some {i : ℕ} (h : s.firstReady c = some (i, n)) :
    (s.table (.active c i)).getLast? = some n := by
  obtain ⟨j, -, hj⟩ := List.exists_of_findSome?_eq_some h
  obtain ⟨m, hm, he⟩ := Option.map_eq_some_iff.1 hj
  cases he
  exact hm

theorem firstReady_ne_none {i : ℕ} (hi : i ≤ kernelLowestPriority)
    (hn : n ∈ s.table (.active c i)) :
    s.firstReady c ≠ none := by
  intro h
  have := List.findSome?_eq_none_iff.1 h i (List.mem_range.2 (by omega))
  rw [Option.map_eq_none_iff, List.getLast?_eq_none_iff] at this
  simp [this] at hn

/-- The idle thread of a CPU that has no active thread is ready. -/
theorem Core.idle_ready (h : s.Core act) (hc : act c = none) (hon : s.activeThread c ≠ none) :
    s.idleThread c ∈ s.table (.active c (s.thread (s.idleThread c)).priority) := by
  obtain ⟨h1, h2, -, h4⟩ := (h.good (s.idleThread c)).idle c hon rfl
  obtain ⟨loc, hl, hsit⟩ := (h.good (s.idleThread c)).place
  have ho := not_on hc h2
  cases hsit with
  | running _ hon' => exact absurd hon' ho
  | drowsy hs | sleeping hs | waiting _ hs | joining hs => simp [hs] at h4
  | gone _ hg => simp [h1, Pc.gone] at hg
  | zombie _ hg => simp [h1, Pc.pushed] at hg
  | ready => exact hl.mem_iff.2 (by rw [h2])

/-- A node in a table of ready threads is that of a ready thread of the CPU. -/
theorem Core.queued {i : ℕ} (h : s.Core act) (hn : n ∈ s.table (.active c i)) :
    Located s.table n (some (.active c i)) ∧ (s.thread n).state = .ready
      ∧ (s.pc n).gone = false ∧ (s.thread n).cpuAffinity = c := by
  obtain ⟨loc, hl, hsit⟩ := (h.good n).place
  obtain rfl := hl.eq_of_mem hn
  generalize hq : some (Table.active c i) = q at hsit
  cases hsit with
  | running | sleeping | drowsy | waiting | joining | gone | zombie => simp at hq
  | ready hst hg _ =>
    obtain ⟨rfl, rfl⟩ : c = (s.thread n).cpuAffinity ∧ i = (s.thread n).priority := by simpa using hq
    exact ⟨hl, hst, hg, rfl⟩

/-- The head of a table of ready threads is made the active thread. -/
theorem Core.activate {i : ℕ} (h : s.Core act) (hc : act c = none) (hon : s.activeThread c ≠ none)
    (hlast : (s.table (.active c i)).getLast? = some n) :
    Core { (s.popped (.active c i)).setState n .running with
        activeThread := Function.update s.activeThread c (some n) }
      (Function.update act c (some n)) := by
  obtain ⟨hl, hst, hg, ha⟩ := h.queued (List.mem_of_getLast? hlast)
  have hgn := h.good n
  have hlt : n < s.created := h.lt_created (by intro hp; simp [hp, Pc.gone] at hg)
  set s' : Sched := { (s.popped (.active c i)).setState n .running with
    activeThread := Function.update s.activeThread c (some n) } with hs'
  have e : s'.thread n = { s.thread n with state := .running } := Function.update_self _ _ _
  have hl' : Located s'.table n none := Located.popped hl hlast
  have hsame : ∀ x, x ≠ n → Same s s' x := fun x hx =>
    ((Same.popped hlast hx).trans (.setState _ hx)).trans
      ⟨rfl, rfl, rfl, rfl, rfl, rfl, rfl, rfl, rfl, fun _ h => h⟩
  have hstill : Still s s' := by
    refine ⟨rfl, rfl, rfl, fun c' hc' => ?_⟩
    by_cases hcc : c' = c
    · rwa [hcc]
    · have : s'.activeThread c' = s.activeThread c' := Function.update_of_ne hcc _ _
      rwa [this] at hc'
  have hon' : s'.On (Function.update act c (some n)) n := by
    unfold On
    rw [e]
    simp only []
    rw [ha, Function.update_self]
  have hpu := Pc.pushed_of_not_gone hg
  refine ⟨fun x => ?_, fun c' x hx => ?_, h.init⟩
  · by_cases hx : x = n
    · subst hx
      refine ⟨⟨none, hl', ?_⟩, by rw [e]; exact hgn.prio, hgn.node, fun _ hp => ?_,
        by rw [e]; exact hgn.children, by rw [e]; exact hgn.emptied, by rw [e]; exact hgn.found,
        by rw [e]; exact hgn.init, ?_,
        fun hge => absurd hlt (by have : s.created ≤ x := hge; omega), fun _ he => ?_⟩
      · rw [e]
        exact .running rfl hon' hg
      · have hp' : (s.pc x).pushed = true := hp
        simp [hpu] at hp'
      · intro c' hc' hi'
        obtain ⟨h1, h2, h3, -⟩ := hgn.idle c' (hstill.active c' hc') hi'
        rw [e]
        exact ⟨h1, h2, h3, .inl rfl⟩
      · have he' : s.pc x = .exited := he
        simp [he', Pc.gone] at hg
    · refine (h.good x).same (hsame x hx) (hstill.at x) ?_
      unfold On
      rw [(hsame x hx).affinity]
      exact (update_active_iff (by simp [hc]) (by simpa using Ne.symm hx)).symm
  · by_cases hcc : c' = c
    · subst hcc
      obtain rfl : n = x := by simpa using hx
      rw [e]
      exact ⟨ha, hlt⟩
    · rw [Function.update_of_ne hcc] at hx
      by_cases hxn : x = n
      · subst hxn
        rw [e]
        exact h.active c' x hx
      · rw [(hsame x hxn).affinity]
        exact h.active c' x hx

/-- A thread is elected. -/
theorem Core.elect (h : s.Core act) (hc : act c = none) (hon : s.activeThread c ≠ none) :
    ∃ i n, s.firstReady c = some (i, n) ∧ s.elect c = .ok
        { (s.popped (.active c i)).setState n .running with
          activeThread := Function.update s.activeThread c (some n) }
      ∧ (s.thread n).state = .ready
      ∧ Core { (s.popped (.active c i)).setState n .running with
          activeThread := Function.update s.activeThread c (some n) }
        (Function.update act c (some n)) := by
  have hne := firstReady_ne_none (h.good (s.idleThread c)).prio (h.idle_ready hc hon)
  obtain ⟨⟨i, n⟩, hfirst⟩ := Option.ne_none_iff_exists'.1 hne
  have hlast := firstReady_some hfirst
  obtain ⟨-, hst, hg, -⟩ := h.queued (List.mem_of_getLast? hlast)
  have hdata : (s.node n).data = some n := (h.good n).node.resolve_right fun hn => by simp [hg] at hn
  refine ⟨i, n, hfirst, ?_, hst, h.activate hc hon hlast⟩
  unfold Sched.elect
  rw [hfirst]
  simp only []
  rw [hdata]

/-! ## The whole -/

/-- The CPU `c` goes over to the thread `n`. -/
structure Switch (s s' : Sched) (c n : ℕ) : Prop where
  shuffle : Shuffle s { s' with activeThread := s.activeThread }
  active : s'.activeThread = Function.update s.activeThread c (some n)
  running : (s'.thread n).state = .running

/-- `select_thread` does not panic. -/
theorem Core.selectThread (h : s.Core s.activeThread) (now : ℕ) (hc : s.activeThread c = some t)
    (hp : Leaves (s.pc t) p) : ∃ s' n, (s.goto t p).selectThread c now = .ok s'
      ∧ s'.Core s'.activeThread ∧ Switch (s.goto t p) s' c n := by
  have hc' : (s.goto t p).activeThread c = some t := hc
  set s₁ := (s.goto t p).requeue c t with hs₁
  set s₂ := Sched.wake c now (s₁.table (.sleeping c)).length s₁ with hs₂
  obtain ⟨h₂, hsh⟩ : s₂.Core (Function.update s.activeThread c none) ∧ Shuffle s₁ s₂ :=
    Core.wake _ (h.requeue hc hp)
  have hsh₂ : Shuffle (s.goto t p) s₂ := Shuffle.requeue.trans hsh
  have hon : s₂.activeThread c ≠ none := by
    rw [hsh₂.active, hc']
    simp
  obtain ⟨i, n, -, helect, hst, h₃⟩ := h₂.elect (Function.update_self _ _ _) hon
  rw [Function.update_idem] at h₃
  have hact : Function.update s.activeThread c (some n)
      = Function.update s₂.activeThread c (some n) := by
    rw [hsh₂.active]
    rfl
  rw [hact] at h₃
  refine ⟨_, n, ?_, h₃, ?_, hact.symm, ?_⟩
  · unfold Sched.selectThread
    rw [hc']
    exact helect
  · have hst' : Shuffle s₂ ((s₂.popped (.active c i)).setState n .running) :=
      (Shuffle.popped (by simp)).trans (.setState (hst ▸ rfl) rfl)
    have := hsh₂.trans hst'
    exact ⟨this.pc, this.thread, this.state, this.data, this.zombie, rfl, this.created, this.freed,
      this.init, this.idle, this.creator⟩
  · show (((s₂.popped (.active c i)).setState n .running).thread n).state = _
    unfold Sched.setState Sched.setThread
    simp

end Sched

end RTLKIM

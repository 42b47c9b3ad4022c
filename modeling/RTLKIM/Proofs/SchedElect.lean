import RTLKIM.Proofs.SchedWake
import RTLKIM.Proofs.SchedFeed
import RTLKIM.Proofs.SchedJoin

/-!
# The thread that is elected

`select_thread` puts the thread it switches from and the sleepers it wakes up at the back of their
tables and takes the front of the first table that is not empty. A thread is taken from a table by
an election alone, so one that is behind another in their table is not elected before it.
-/

namespace RTLKIM

namespace Sched

variable {s s' : Sched} {act : ℕ → Option ℕ} {t c now n prev i : ℕ} {p : Pc} {w : List ℕ}

/-! ## Tables -/

theorem Core.tables (h : s.Core s.activeThread) (hc : s.activeThread c = some t) :
    s.Tables c where
  active := ⟨t, hc, (h.active c t hc).1⟩
  running x hst ha := by
    obtain ⟨loc, -, hsit⟩ := (h.good x).place
    cases hsit with
    | running _ ho => rwa [← ha]
    | ready h1 | drowsy h1 | sleeping h1 | waiting _ h1 | joining h1 => simp [h1] at hst
    | gone h1 | zombie h1 => simp [hst] at h1
  ready x i := by
    obtain ⟨loc, hl, hsit⟩ := (h.good x).place
    rw [hl.mem_iff]
    cases hsit with
    | ready h1 => simp [h1]
    | running h1 | drowsy h1 | sleeping h1 | waiting _ h1 | joining h1 => simp [h1]
    | gone h1 | zombie h1 => rcases h1 with h1 | h1 <;> simp [h1]
  sleeping x hx := by
    obtain ⟨-, h1, rfl, h2, -⟩ := h.sleeper hx
    exact ⟨h1, rfl, h2⟩
  nodup q := by
    rw [List.nodup_iff_count_le_one]
    intro x
    obtain ⟨loc, hl, -⟩ := (h.good x).place
    rw [hl q]
    split_ifs <;> omega
  node x _ hst := by
    refine (h.good x).node.resolve_right fun hg => ?_
    rcases h.gone_iff.1 hg.2 with h1 | h1 <;> simp [h1] at hst
  prio x := (h.good x).prio
  idle := by
    obtain ⟨-, h2, -, h4⟩ := (h.good (s.idleThread c)).idle c (by simp [hc]) rfl
    exact ⟨s.idleThread c, h2, h4⟩

/-- In every run whose statements miss no joiner the tables of the CPUs that are up are right. -/
theorem tables_of_reach {m : ℕ} (h : Reach step JoinsInTime (schedInit m) s)
    (hc : s.activeThread c ≠ none) : s.Tables c := by
  obtain ⟨t, ht⟩ := Option.ne_none_iff_exists'.1 hc
  exact (expects_of_reach h).1.core.tables ht

theorem Tables.goto (h : s.Tables c) : (s.goto t p).Tables c :=
  ⟨h.active, h.running, h.ready, h.sleeping, h.nodup, h.node, h.prio, h.idle⟩

/-! ## The thread switched from -/

theorem requeue_active (s : Sched) (c prev i : ℕ) : (s.requeue c prev).table (.active c i)
    = (if (s.thread prev).state = .running ∧ (s.thread prev).priority = i then [prev] else [])
      ++ s.table (.active c i) := by
  unfold requeue
  split_ifs with h1 h2 h3 h4
  · obtain rfl := h2.2
    exact Function.update_self _ _ _
  · have hne : Table.active c i ≠ .active c (s.thread prev).priority := fun h =>
      h2 ⟨h1, by simpa using h.symm⟩
    exact push_table_of_ne hne
  · exact absurd h4.1 h1
  · exact pushPrio_table_of_ne (by simp)
  · rename_i h5
    exact absurd h5.1 h1
  · rfl

theorem requeue_sleeping (s : Sched) (c prev : ℕ) : ((s.requeue c prev).table (.sleeping c)).Perm
    ((if (s.thread prev).state = .sleeping then [prev] else []) ++ s.table (.sleeping c)) := by
  unfold requeue
  split_ifs with h1 h2 h2
  · simp [h1] at h2
  · exact List.Perm.of_eq (push_table_of_ne (by simp))
  · have htab : (s.pushPrio (.sleeping c) prev ((s.thread prev).wakeupTime % 2 ^ 32)).table
        (.sleeping c) = _ := Function.update_self _ _ _
    rw [htab]
    exact perm_pushPrio _ _ _
  · exact .refl _

theorem requeue_thread (s : Sched) (c prev t : ℕ) : (s.requeue c prev).thread t = { s.thread t with
    state := if t = prev ∧ (s.thread prev).state = .running then .ready else (s.thread t).state } := by
  unfold requeue
  split_ifs with h1 h2 h3 h4
  · exact (setState_thread s prev .ready t).trans (by rw [if_pos h2.1])
  · exact (setState_thread s prev .ready t).trans (by rw [if_neg fun h => h2 ⟨h, h1⟩])
  · exact absurd h4.2 h1
  · rfl
  · rename_i h5
    exact absurd h5.2 h1
  · rfl

theorem mem_requeue_sleeping : t ∈ (s.requeue c prev).table (.sleeping c)
    ↔ t ∈ s.table (.sleeping c) ∨ t = prev ∧ (s.thread prev).state = .sleeping := by
  rw [(requeue_sleeping s c prev).mem_iff, List.mem_append, or_comm]
  split_ifs with hst <;> simp [hst]

theorem asleep_of_mem_woken (ht : t ∈ (s.requeue c prev).woken c now) :
    t ∈ s.table (.sleeping c) ∨ t = prev ∧ (s.thread prev).state = .sleeping :=
  mem_requeue_sleeping.1 (mem_table_iff.2 (.inr ht))

theorem Tables.affinity (h : s.Tables c) (hc : s.activeThread c = some prev) :
    (s.thread prev).cpuAffinity = c := by
  obtain ⟨x, hx, hxa⟩ := h.active
  obtain rfl : x = prev := Option.some_inj.1 (hx.symm.trans hc)
  exact hxa

/-- The loop finds sleepers of the CPU only. -/
theorem Tables.asleep (h : s.Tables c) (hc : s.activeThread c = some prev)
    (ht : t ∈ s.table (.sleeping c) ∨ t = prev ∧ (s.thread prev).state = .sleeping) :
    (s.thread t).state = .sleeping ∧ (s.thread t).cpuAffinity = c := by
  rcases ht with ht | ⟨rfl, hst⟩
  · exact ⟨(h.sleeping t ht).1, (h.sleeping t ht).2.1⟩
  · exact ⟨hst, h.affinity hc⟩

theorem Tables.requeue_nodup (h : s.Tables c) (hc : s.activeThread c = some prev) :
    ((s.requeue c prev).table (.sleeping c)).Nodup := by
  rw [(requeue_sleeping s c prev).nodup_iff]
  split_ifs
  · exact List.nodup_cons.2 ⟨fun hm => (h.sleeping prev hm).2.2 hc, h.nodup _⟩
  · exact h.nodup _

theorem Tables.requeue_data (h : s.Tables c) (hc : s.activeThread c = some prev)
    (ht : t ∈ (s.requeue c prev).table (.sleeping c)) :
    ((s.requeue c prev).node t).data = some t := by
  obtain ⟨hst, ha⟩ := h.asleep hc (mem_requeue_sleeping.1 ht)
  rw [Shuffle.requeue.data]
  exact h.node t ha (.inr (.inr hst))

/-! ## The election -/

/-- The first table that is not empty. -/
theorem firstReady_spec (h : s.firstReady c = some (i, n)) :
    (∀ j < i, s.table (.active c j) = []) ∧ (s.table (.active c i)).getLast? = some n := by
  refine ⟨fun j hj => ?_, firstReady_some h⟩
  obtain ⟨l₁, k, l₂, hl, hk, hnone⟩ := List.findSome?_eq_some_iff.1 h
  obtain ⟨m, -, he⟩ := Option.map_eq_some_iff.1 hk
  cases he
  have hsorted : (l₁ ++ i :: l₂).Pairwise (· < ·) := hl ▸ List.pairwise_lt_range
  have hi : i < kernelLowestPriority + 1 := List.mem_range.1 (hl ▸ by simp)
  have hmem : j ∈ l₁ ++ i :: l₂ := hl ▸ List.mem_range.2 (hj.trans hi)
  -- an index behind `i` is greater
  have hj₁ : j ∈ l₁ := by
    rcases List.mem_append.1 hmem with h1 | h1
    · exact h1
    · rcases List.mem_cons.1 h1 with rfl | h2
      · exact absurd hj (lt_irrefl j)
      · have := (List.pairwise_cons.1 (List.pairwise_append.1 hsorted).2.1).1 j h2
        exact absurd hj this.not_gt
  simpa using hnone j hj₁

/-- The threads that wait to be served are of the CPU, and of the priority of their table. -/
theorem Tables.of_mem_queued (h : s.Tables c) (hc : s.activeThread c = some prev)
    (hw : ∀ t ∈ w, t ∈ s.table (.sleeping c) ∨ t = prev ∧ (s.thread prev).state = .sleeping)
    (ht : t ∈ s.queued c prev w i) : (s.thread t).cpuAffinity = c ∧ (s.thread t).priority = i
      ∧ (s.node t).data = some t
      ∧ (t ∈ w ∨ t = prev ∧ (s.thread prev).state = .running ∨ (s.thread t).state = .ready) := by
  rw [queued, List.mem_append, List.mem_append] at ht
  rcases ht with (ht | ht) | ht
  · obtain ⟨htw, hi⟩ := List.mem_filter.1 ht
    obtain ⟨hst, ha⟩ := h.asleep hc (hw t htw)
    exact ⟨ha, of_decide_eq_true hi, h.node t ha (.inr (.inr hst)), .inl htw⟩
  · split_ifs at ht with hrun
    · obtain rfl := List.mem_singleton.1 ht
      exact ⟨h.affinity hc, hrun.2, h.node t (h.affinity hc) (.inl hrun.1), .inr (.inl ⟨rfl, hrun.1⟩)⟩
    · cases ht
  · obtain ⟨hst, ha, hi⟩ := (h.ready t i).1 ht
    exact ⟨ha, hi, h.node t ha (.inr (.inl hst)), .inr (.inr hst)⟩

/-- What is ready once the sleepers `w` are is in the table of its priority. -/
theorem Tables.mem_queued (h : s.Tables c) (ha : (s.thread t).cpuAffinity = c)
    (ht : t ∈ w ∨ t = prev ∧ (s.thread prev).state = .running ∨ (s.thread t).state = .ready) :
    t ∈ s.queued c prev w (s.thread t).priority := by
  rw [queued, List.mem_append, List.mem_append]
  rcases ht with ht | ⟨rfl, hrun⟩ | ht
  · exact .inl (.inl (List.mem_filter.2 ⟨ht, decide_eq_true rfl⟩))
  · exact .inl (.inr (by simp [hrun]))
  · exact .inr ((h.ready t _).2 ⟨ht, ha, rfl⟩)

/-- The idle thread is among those that wait to be served. -/
theorem Tables.queued_ne_nil (h : s.Tables c) (hc : s.activeThread c = some prev) (w : List ℕ) :
    ∃ x i, i ≤ kernelLowestPriority ∧ x ∈ s.queued c prev w i := by
  obtain ⟨x, hxa, hx⟩ := h.idle
  refine ⟨x, _, h.prio x, h.mem_queued hxa (.inr (hx.imp_left fun hrun => ?_))⟩
  obtain rfl : prev = x := Option.some_inj.1 (hc.symm.trans (h.running x hrun hxa))
  exact ⟨rfl, hrun⟩

/-- A thread when `e` is elected and `w` have been woken up. -/
theorem elected_thread {s₂ : Sched} {u : List ℕ} (W : Woke (s.requeue c prev) c u w s₂) (i e t : ℕ)
    {f : ℕ → Option ℕ} :
    ({ (s₂.popped (.active c i)).setState e .running with activeThread := f } : Sched).thread t
      = { s.thread t with state := if t = e then .running else if t ∈ w then .ready
          else if t = prev ∧ (s.thread prev).state = .running then .ready
          else (s.thread t).state } := by
  refine (setState_thread (s₂.popped (.active c i)) e .running t).trans ?_
  change { s₂.thread t with state := if t = e then .running else (s₂.thread t).state } = _
  rw [W.thread, requeue_thread]

/-- `select_thread` on a CPU whose tables are right: the loop goes to `s₂`, and `e` is elected. -/
theorem Tables.selectThread (h : s.Tables c) (now : ℕ) (hc : s.activeThread c = some prev) :
    ∃ i e s₂, Woke (s.requeue c prev) c ((s.requeue c prev).kept c now)
        ((s.requeue c prev).woken c now) s₂
      ∧ s₂ = wake c now ((s.requeue c prev).table (.sleeping c)).length (s.requeue c prev)
      ∧ (∀ j, s₂.table (.active c j) = s.queued c prev ((s.requeue c prev).woken c now) j)
      ∧ (∀ j < i, s₂.table (.active c j) = []) ∧ (s₂.table (.active c i)).getLast? = some e
      ∧ s.selectThread c now = .ok { (s₂.popped (.active c i)).setState e .running with
          activeThread := Function.update s₂.activeThread c (some e) } := by
  set s₁ := s.requeue c prev with hs₁
  set s₂ := wake c now (s₁.table (.sleeping c)).length s₁ with hs₂
  have W : Woke s₁ c (s₁.kept c now) (s₁.woken c now) s₂ :=
    wake_woke _ le_rfl fun t ht => h.requeue_data hc ht
  have hqueued : ∀ i, s₂.table (.active c i) = s.queued c prev (s₁.woken c now) i := by
    intro i
    rw [W.active, requeue_active, queued, List.append_assoc]
    simp only [hs₁, requeue_thread s c prev]
  obtain ⟨x, k, hk, hx⟩ := h.queued_ne_nil hc (s₁.woken c now)
  rw [← hqueued] at hx
  obtain ⟨⟨i, e⟩, hfirst⟩ := Option.ne_none_iff_exists'.1 (firstReady_ne_none hk hx)
  obtain ⟨hempty, hlast⟩ := firstReady_spec hfirst
  have hdata : (s.node e).data = some e :=
    (h.of_mem_queued hc (fun _ => asleep_of_mem_woken) (hqueued i ▸ List.mem_of_getLast? hlast)).2.2.1
  refine ⟨i, e, s₂, W, rfl, hqueued, hempty, hlast, ?_⟩
  unfold Sched.selectThread
  rw [hc]
  change s₂.elect c = _
  unfold elect
  rw [hfirst]
  dsimp only
  rw [W.data, Shuffle.requeue.data, hdata]

/-- What it elects, with the sleepers that its loop wakes. -/
theorem Tables.election (h : s.Tables c) (now : ℕ) (hc : s.activeThread c = some prev) :
    ∃ e s', s.selectThread c now = .ok s'
      ∧ s.Election c prev e ((s.requeue c prev).woken c now) s' := by
  obtain ⟨i, e, s₂, W, -, hqueued, hempty, hlast, hsel⟩ := h.selectThread now hc
  set w := (s.requeue c prev).woken c now with hw
  simp only [hqueued] at hempty hlast
  have hwmem : ∀ t ∈ w, t ∈ s.table (.sleeping c) ∨ t = prev ∧ (s.thread prev).state = .sleeping :=
    fun t ht => asleep_of_mem_woken ht
  obtain ⟨-, hei, -, he⟩ := h.of_mem_queued hc hwmem (List.mem_of_getLast? hlast)
  set s' : Sched := { (s₂.popped (.active c i)).setState e .running with
    activeThread := Function.update s₂.activeThread c (some e) } with hs'
  have hstate := fun t => congrArg Thread.state (elected_thread (s := s) W i e t
    (f := Function.update s₂.activeThread c (some e)))
  refine ⟨e, s', hsel, fun t => ⟨fun ht => ⟨hwmem t ht, ?_⟩, ?_⟩, ?_, Function.update_self _ _ _,
    (hstate e).trans (if_pos rfl), ⟨i, hempty, hlast, fun j => ?_⟩, fun t ha ht => ?_⟩
  · rw [hstate]
    dsimp only
    split_ifs <;> simp
  · rintro ⟨ht, hst⟩
    by_contra hnot
    have hst₀ := (h.asleep hc ht).1
    have hprun : ¬ (t = prev ∧ (s.thread prev).state = .running) := by
      rintro ⟨rfl, h1⟩
      simp [hst₀] at h1
    by_cases hte : t = e
    · -- the thread elected was not asleep
      subst hte
      rcases he with h1 | h1 | h1
      · exact hnot h1
      · exact hprun h1
      · simp [hst₀] at h1
    · rw [hstate, if_neg hte, if_neg hnot, if_neg hprun] at hst
      exact hst hst₀
  · exact (h.requeue_nodup hc).sublist (List.rtakeWhile_suffix _ _).sublist
  · have hpop : s'.table (.active c j) = Function.update s₂.table (.active c i)
        (s₂.table (.active c i)).dropLast (.active c j) := rfl
    rw [hpop, ← hqueued j]
    split_ifs with hji
    · subst hji
      exact Function.update_self _ _ _
    · exact Function.update_of_ne (by simpa using hji) _ _
  · -- its table is not empty
    have hmem : t ∈ s.queued c prev w (s.thread t).priority := by
      refine h.mem_queued ha ?_
      rcases ht with ht | ht
      · exact .inr (.inr ht)
      · rw [hstate] at ht
        split_ifs at ht with h1 h2 h3
        · exact .inl h2
        · exact .inr (.inl h3)
        · exact .inr (.inr ht)
    rw [hei]
    refine not_lt.1 fun hlt => ?_
    rw [hempty _ hlt] at hmem
    cases hmem

/-! ## Turns -/

/-- Thread `b` waits in its table, and `a` is not served before it. -/
def Awaits (s : Sched) (c p a b : ℕ) : Prop := ∃ u v, s.table (.active c p) = u ++ b :: v ∧ a ∉ v

variable {a b e : ℕ} {ev : SchedEv}

theorem Awaits.of_back (h : s.Awaits c i a b) {l : List ℕ}
    (hl : s'.table (.active c i) = l ++ s.table (.active c i)) : s'.Awaits c i a b := by
  obtain ⟨u, v, htab, ha⟩ := h
  exact ⟨l ++ u, v, by rw [hl, htab, List.append_assoc], ha⟩

/-- An election serves `b`, or leaves it before `a`. -/
theorem Election.awaits (E : s.Election c prev e w s') (h : s.Awaits c i a b) :
    e = b ∨ s'.Awaits c i a b := by
  obtain ⟨u, v, htab, ha⟩ := h
  obtain ⟨k, -, hlast, hnext⟩ := E.front
  have hq : ∃ u', s.queued c prev w i = u' ++ b :: v := by
    rw [queued, htab]
    exact ⟨_, (List.append_assoc _ _ _).symm⟩
  obtain ⟨u', hq⟩ := hq
  by_cases hik : i = k
  · subst hik
    rw [hq] at hlast
    rcases List.eq_nil_or_concat v with rfl | ⟨v', x, rfl⟩
    · exact .inl (by simpa using hlast.symm)
    · refine .inr ⟨u', v', ?_, fun hm => ha (by simp [hm])⟩
      rw [hnext, if_pos rfl, hq, List.concat_eq_append, ← List.cons_append, ← List.append_assoc,
        List.dropLast_concat]
  · exact .inr ⟨u', v, by rw [hnext, if_neg hik, hq], ha⟩

/-- An election of `a` is none while `b` awaits its turn before it. -/
theorem Election.not_awaits (E : s.Election c prev e w s') (hT : s.Tables c)
    (hc : s.activeThread c = some prev) (hne : e ≠ b) : ¬ s.Awaits c (s.thread e).priority e b := by
  rintro ⟨u, v, htab, he⟩
  obtain ⟨k, -, hlast, -⟩ := E.front
  obtain ⟨-, hk, -, -⟩ := hT.of_mem_queued hc (fun t ht => ((E.woken t).1 ht).1)
    (List.mem_of_getLast? hlast)
  rw [← hk, queued, htab, ← List.append_assoc] at hlast
  rcases List.eq_nil_or_concat v with rfl | ⟨v', y, rfl⟩
  · exact hne (by simpa using hlast.symm)
  · rw [List.concat_eq_append, ← List.cons_append, ← List.append_assoc, List.getLast?_concat] at hlast
    obtain rfl := Option.some_inj.1 hlast
    exact he (by simp)

/-- The step of an election is `select_thread`. -/
theorem selects_spec (hs : s.step ev = some s') (hsel : s.Selects c ev) :
    ∃ t p, s.activeThread c = some t ∧ Leaves (s.pc t) p
      ∧ (s.goto t p).selectThread c ev.now = .ok s' := by
  have hstep := step_spec hs
  cases hstep with
  | initAp | call => cases hsel
  | timer c' now t _ hc _ hr =>
    obtain rfl : c' = c := hsel
    exact ⟨t, s.pc t, hc, .timer _, by rwa [goto_self]⟩
  | stmt c' now t _ hc _ hr =>
    obtain ⟨rfl, x, hx, hsw⟩ := hsel
    obtain rfl : t = x := Option.some_inj.1 (hc.symm.trans hx)
    unfold Sched.stmt at hr
    cases hpc : s.pc t <;> simp only [hpc, Pc.switches] at hsw hr <;> try cases hsw
    · exact ⟨t, _, hc, hpc ▸ .sched, hr⟩
    · exact ⟨t, _, hc, hpc ▸ .wait _, hr⟩
    · exact ⟨t, _, hc, hpc ▸ .exit, hr⟩

theorem requeue_goto : (s.goto t p).requeue c prev = (s.requeue c prev).goto t p := by
  unfold requeue
  rw [show (s.goto t p).thread = s.thread from rfl]
  split_ifs <;> rfl

theorem selects_election (hT : s.Tables c) (hs : s.step ev = some s') (hsel : s.Selects c ev) :
    ∃ prev e, s.activeThread c = some prev
      ∧ s.Election c prev e ((s.requeue c prev).woken c ev.now) s' := by
  obtain ⟨t, p, hc, -, hr⟩ := selects_spec hs hsel
  obtain ⟨e, s₁, hr₁, E⟩ := (hT.goto (t := t) (p := p)).election ev.now hc
  rw [hr] at hr₁
  cases hr₁
  have hw : ((s.goto t p).requeue c t).woken c ev.now = (s.requeue c t).woken c ev.now := by
    rw [requeue_goto]
    rfl
  rw [hw] at E
  exact ⟨t, e, hc, E.woken, E.nodup, E.active, E.running, E.front, E.best⟩

theorem awaits_step (hT : s.Tables c) (hs : s.step ev = some s') (h : s.Awaits c i a b) :
    s.Elects c b ev ∨ s'.Awaits c i a b := by
  by_cases hsel : s.Selects c ev
  · obtain ⟨prev, e, -, E⟩ := selects_election hT hs hsel
    refine (E.awaits h).imp_left ?_
    rintro rfl
    exact ⟨hsel, s', hs, E.active⟩
  · right
    rcases step_feeds hs hsel with ⟨who, -, hf⟩ | ⟨c', now, t, p, hc', -, -, hr⟩
    · obtain ⟨l, hl⟩ := hf.active c i
      exact h.of_back hl
    · have htab : s'.table (.active c i) = (s.goto t p).table (.active c i) :=
        selectThread_table_of_ne (by simp [Ne.symm hc']) (by simp) hr
      exact h.of_back (l := []) htab

/-- Along a run `b` is elected, or still awaits its turn before `a`. -/
theorem awaits_run : ∀ {es : List SchedEv} {s s' : Sched}, Along step (·.Tables c) s es →
    runEvents step s es = some s' → s.Awaits c i a b →
    (∃ es₁ e es₂ r, es = es₁ ++ e :: es₂ ∧ runEvents step s es₁ = some r ∧ r.Elects c b e)
      ∨ s'.Awaits c i a b
  | [], s, s', _, hr, h => by
    cases hr
    exact .inr h
  | e :: es, s, s', hT, hr, h => by
    obtain ⟨s₁, hs, hr₁⟩ := Option.bind_eq_some_iff.1 hr
    rcases awaits_step hT.1 hs h with hb | h₁
    · exact .inl ⟨[], e, es, s, rfl, rfl, hb⟩
    · refine (awaits_run (hT.2 s₁ hs) hr₁ h₁).imp_left ?_
      rintro ⟨es₁, e', es₂, r, rfl, hr', hb⟩
      exact ⟨e :: es₁, e', es₂, r, rfl, by rw [runEvents, hs]; exact hr', hb⟩

/-- `select_thread` elects the front of the first table that is not empty, the thread it switches
from and the sleepers it wakes up having been put at the back of theirs, so no thread of the CPU that
is ready has a better priority. And between two elections of a thread, every other of its priority
that can run all the while is elected. -/
theorem select_thread_elects (h : s.Tables c) (now : ℕ) :
    (∃ prev w e s', s.activeThread c = some prev ∧ s.selectThread c now = .ok s'
      ∧ s.Election c prev e w s')
    ∧ ∀ (a b p : ℕ) (e₁ e₂ : SchedEv) (es : List SchedEv) (s₁ s₂ : Sched), a ≠ b →
      s.Elects c a e₁ → s.step e₁ = some s₁ → runEvents step s₁ es = some s₂ → s₂.Elects c a e₂ →
      Along step (fun r => r.Tables c ∧ r.Runnable c p a ∧ r.Runnable c p b) s₁ es →
      ∃ es₁ e es₂ r, es = es₁ ++ e :: es₂ ∧ runEvents step s₁ es₁ = some r ∧ r.Elects c b e := by
  obtain ⟨prev₀, hprev₀, -⟩ := h.active
  obtain ⟨e₀, s₀, hr₀, E₀⟩ := h.election now hprev₀
  refine ⟨⟨prev₀, _, e₀, s₀, hprev₀, hr₀, E₀⟩, fun a b p e₁ e₂ es s₁ s₂ hab he₁ hs₁ hr he₂ hal => ?_⟩
  obtain ⟨hT₁, -, hb, hba, hbp⟩ := hal.head
  -- `a` runs, so `b` is in the table and `a` is not
  obtain ⟨prev, e, -, E⟩ := selects_election h hs₁ he₁.1
  obtain ⟨s₁', hs₁', hact⟩ := he₁.2
  obtain rfl : s₁ = s₁' := Option.some_inj.1 (hs₁.symm.trans hs₁')
  obtain rfl : e = a := Option.some_inj.1 (E.active.symm.trans hact)
  have hready : (s₁.thread b).state = .ready := hb.resolve_left fun hrun =>
    hab (Option.some_inj.1 (E.active.symm.trans (hT₁.running b hrun hba)))
  obtain ⟨u, v, htab⟩ := List.append_of_mem ((hT₁.ready b p).2 ⟨hready, hba, hbp⟩)
  have hawaits : s₁.Awaits c p e b := by
    refine ⟨u, v, htab, fun hm => ?_⟩
    have := ((hT₁.ready e p).1 (htab ▸ by simp [hm])).1
    rw [E.running] at this
    cases this
  rcases awaits_run (hal.imp fun _ h => h.1) hr hawaits with hfound | h₂
  · exact hfound
  · obtain ⟨hT₂, ⟨-, -, hp₂⟩, -⟩ := hal.last hr
    obtain ⟨s₃, hs₃, hact₃⟩ := he₂.2
    obtain ⟨prev', e', hprev', E'⟩ := selects_election hT₂ hs₃ he₂.1
    obtain rfl : e' = e := Option.some_inj.1 (E'.active.symm.trans hact₃)
    rw [← hp₂] at h₂
    exact absurd h₂ (E'.not_awaits hT₂ hprev' hab)

/-- Three threads of one priority in turn. -/
theorem select_thread_elects_three : ∃ s s₁ s₂ : Sched, s.Elects 0 2 (.timer 0 5)
    ∧ s.step (.timer 0 5) = some s₁ ∧ runEvents step s₁ [.timer 0 10, .timer 0 15] = some s₂
    ∧ s₂.Elects 0 2 (.timer 0 20)
    ∧ ∃ es₁ e es₂ r, [.timer 0 10, .timer 0 15] = es₁ ++ e :: es₂
      ∧ runEvents step s₁ es₁ = some r ∧ r.Elects 0 3 e := by
  have hrun : (runEvents (guarded step JoinsInTime) (schedInit 1) [.timer 0 0,
      .call 0 0 (.create 0 0 6), .call 0 0 (.create 0 0 6)]).any (fun s =>
        decide (s.Elects 0 2 (.timer 0 5)) && (s.step (.timer 0 5)).any fun s₁ =>
          decide (Along step (fun r => r.activeThread 0 ≠ none ∧ r.Runnable 0 0 2 ∧ r.Runnable 0 0 3)
            s₁ [.timer 0 10, .timer 0 15])
          && (runEvents step s₁ [.timer 0 10, .timer 0 15]).any fun s₂ =>
            decide (s₂.Elects 0 2 (.timer 0 20))) = true := by
    decide +kernel
  simp only [Option.any_eq_true, Bool.and_eq_true, decide_eq_true_eq] at hrun
  obtain ⟨s, hs, he₁, s₁, hs₁, hal, s₂, hs₂, he₂⟩ := hrun
  have hreach : Reach step JoinsInTime (schedInit 1) s := .of_run hs
  have hreach₁ : Along step (Reach step JoinsInTime (schedInit 1)) s₁ [.timer 0 10, .timer 0 15] :=
    .of_reach (hreach.tail ⟨.timer 0 5, trivial, hs₁⟩) (by
      intro e he s
      rcases List.mem_pair.1 he with rfl | rfl
      · trivial
      · trivial)
  refine ⟨s, s₁, s₂, he₁, hs₁, hs₂, he₂, ?_⟩
  have hact : s.activeThread 0 ≠ none := by
    obtain ⟨t, -, hc, -⟩ := selects_spec hs₁ he₁.1
    simp [hc]
  exact (select_thread_elects (tables_of_reach hreach hact) 5).2 2 3 0 _ _ _ s₁ s₂ (by decide) he₁
    hs₁ hs₂ he₂ ((hreach₁.and hal).imp fun r hr => ⟨tables_of_reach hr.1 hr.2.1, hr.2.2⟩)

end Sched

end RTLKIM

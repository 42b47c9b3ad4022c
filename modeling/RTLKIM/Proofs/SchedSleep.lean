import RTLKIM.Proofs.SchedElect
import RTLKIM.Lib.Keyed

/-!
# How long a thread sleeps

The sleeping tables stay in order, so at an election of its CPU a sleeper is woken up when the time
that `sched_sleep` stored has passed and no sleeper is in its way. That time is the uptime asked for
less a tick, which the test's `<` makes good for a whole number of ticks.
-/

namespace RTLKIM

namespace Sched

variable {s s' : Sched} {t x c c' n now ms prev u w : ℕ} {e : SchedEv}

/-! ## The order of the sleeping tables -/

theorem ByTime.congr (h : s.ByTime c) (htab : s'.table (.sleeping c) = s.table (.sleeping c))
    (hx : ∀ x ∈ s.table (.sleeping c), (s'.node x).priority = (s.node x).priority
      ∧ (s'.thread x).wakeupTime = (s.thread x).wakeupTime) : s'.ByTime c where
  key x hm := by
    rw [htab] at hm
    rw [(hx x hm).1, (hx x hm).2]
    exact h.key x hm
  sorted := by
    rw [htab]
    exact h.sorted.imp_of_mem fun {a b} ha hb hab => by rwa [(hx a ha).1, (hx b hb).1]

theorem ByTime.popped (h : s.ByTime c) : (s.popped (.sleeping c)).ByTime c := by
  refine ⟨fun x hx => ?_, ?_⟩
  · rw [popped_table_self] at hx
    exact h.key x (List.dropLast_subset _ hx)
  · rw [popped_table_self]
    exact h.sorted.sublist (List.dropLast_sublist _)

/-- A node not in the table put in at the time of its thread. -/
theorem ByTime.pushPrio (h : s.ByTime c) (hn : n ∉ s.table (.sleeping c)) :
    (s.pushPrio (.sleeping c) n ((s.thread n).wakeupTime % 2 ^ 32)).ByTime c := by
  set k := (s.thread n).wakeupTime % 2 ^ 32 with hk
  set s' := s.pushPrio (.sleeping c) n k with hs'
  have hself : (s'.node n).priority = k := by
    have hnode : s'.node n = { s.node n with priority := k } := Function.update_self _ _ _
    rw [hnode]
  have hother : ∀ x, x ≠ n → (s'.node x).priority = (s.node x).priority := fun x hx =>
    congrArg QueueNode.priority (Function.update_of_ne hx _ _)
  have hne : ∀ x ∈ s.table (.sleeping c), x ≠ n := fun x hx => by
    rintro rfl
    exact hn hx
  have htab : s'.table (.sleeping c)
      = (s.table (.sleeping c)).takeWhile (fun x => k < (s'.node x).priority)
        ++ n :: (s.table (.sleeping c)).dropWhile fun x => k < (s'.node x).priority :=
    Function.update_self _ _ _
  refine ⟨fun x hx => ?_, ?_⟩
  · rw [htab, (perm_pushPrio _ _ _).mem_iff] at hx
    rcases List.mem_cons.1 hx with rfl | hx
    · exact hself
    · rw [hother x (hne x hx)]
      exact h.key x hx
  · have hsorted : (s.table (.sleeping c)).Pairwise
        fun a b => (s'.node b).priority ≤ (s'.node a).priority :=
      h.sorted.imp_of_mem fun {a b} ha hb hab => by rwa [hother a (hne a ha), hother b (hne b hb)]
    rw [htab]
    refine pairwise_insert hsorted (fun a _ hpass => ?_) fun b hb => ?_
    · rw [hself]
      exact (of_decide_eq_true hpass).le
    · rw [hself]
      exact le_of_mem_dropWhile (f := fun x => (s'.node x).priority) hsorted hb

theorem ByTime.requeue (h : s.ByTime c) (hn : prev ∉ s.table (.sleeping c)) :
    (s.requeue c prev).ByTime c := by
  unfold Sched.requeue
  split_ifs
  · exact h.congr (push_table_of_ne (by simp)) fun x _ =>
      ⟨rfl, setState_wakeupTime s prev .ready x⟩
  · exact h.pushPrio hn
  · exact h

theorem ByTime.wake : ∀ (k : ℕ) {s : Sched}, s.Asleep c → (Sched.wake c now k s).ByTime c
  | 0, _, h => h.toByTime
  | k + 1, s, h => by
    rw [Sched.wake]
    rcases hlast : (s.table (.sleeping c)).getLast? with _ | n
    · exact h.toByTime
    have hn : (s.node n).data = some n := h.node n (List.mem_of_getLast? hlast)
    simp only [hn]
    split_ifs
    · set s₁ := ((s.popped (.sleeping c)).setState n .ready).push
        (.active c (s.thread n).priority) n with hs₁
      have htab : s₁.table (.sleeping c) = (s.popped (.sleeping c)).table (.sleeping c) :=
        push_table_of_ne (by simp)
      have hby : s₁.ByTime c := h.toByTime.popped.congr htab fun x _ =>
        ⟨rfl, setState_wakeupTime (s.popped (.sleeping c)) n .ready x⟩
      refine ByTime.wake k ⟨hby, ?_, fun x hx => ?_⟩
      · rw [htab, popped_table_self]
        exact h.nodup.sublist (List.dropLast_sublist _)
      · rw [htab, popped_table_self] at hx
        exact h.node x (List.dropLast_subset _ hx)
    · refine h.toByTime.popped.pushPrio ?_
      rw [popped_table_self]
      exact (List.nodup_cons.1 ((perm_cons_dropLast hlast).nodup_iff.1 h.nodup)).1

/-- The table that the loop starts with. -/
theorem Tables.requeue_asleep (h : s.Tables c) (hby : s.ByTime c) (hc : s.activeThread c = some prev) :
    (s.requeue c prev).Asleep c :=
  ⟨hby.requeue fun hm => (h.sleeping prev hm).2.2 hc, h.requeue_nodup hc, fun _ => h.requeue_data hc⟩

/-! ## What `select_thread` leaves -/

theorem requeue_node (hx : x ≠ prev) : (s.requeue c prev).node x = s.node x := by
  unfold requeue
  split_ifs
  · rfl
  · exact Function.update_of_ne hx _ _
  · rfl

theorem wake_node (k : ℕ) (hx : x ∉ s.table (.sleeping c)) :
    (wake c now k s).node x = s.node x := by
  have hpop : ∀ s₁ : Sched, x ∉ s₁.table (.sleeping c) →
      x ∉ (s₁.popped (.sleeping c)).table (.sleeping c) := fun s₁ h hm => by
    rw [popped_table_self] at hm
    exact h (List.dropLast_subset _ hm)
  refine (wake_rule (P := fun s' => x ∉ s'.table (.sleeping c) ∧ s'.node x = s.node x) ?_ ?_ ?_ k
    ⟨hx, rfl⟩).2
  · exact fun s₁ _ h _ _ => ⟨hpop s₁ h.1, h.2⟩
  · rintro s₁ n t ⟨h, hn⟩ - -
    refine ⟨?_, hn⟩
    rw [push_table_of_ne (by simp)]
    exact hpop s₁ h
  · rintro s₁ n t ⟨h, hn⟩ hlast -
    have hxn : x ≠ n := by
      rintro rfl
      exact h (List.mem_of_getLast? hlast)
    refine ⟨fun hm => ?_, (Function.update_of_ne hxn _ _).trans hn⟩
    rcases List.mem_cons.1 ((perm_pushPrio_table _ _).mem_iff.1 hm) with rfl | hm
    · exact hxn rfl
    · exact hpop s₁ h hm

/-- A thread of another CPU. -/
theorem Tables.others (h : s.Tables c) (hr : s.selectThread c now = .ok s')
    (hx : (s.thread x).cpuAffinity ≠ c) : s'.thread x = s.thread x := by
  obtain ⟨prev, hc, -⟩ := h.active
  obtain ⟨i, e, s₂, W, -, hqueued, -, hlast, hsel⟩ := h.selectThread now hc
  rw [hr] at hsel
  cases hsel
  have hxw : x ∉ (s.requeue c prev).woken c now := fun hm =>
    hx (h.asleep hc (asleep_of_mem_woken hm)).2
  have hxe : x ≠ e := by
    rintro rfl
    rw [hqueued] at hlast
    exact hx (h.of_mem_queued hc (fun _ => asleep_of_mem_woken) (List.mem_of_getLast? hlast)).1
  have hxp : x ≠ prev := by
    rintro rfl
    exact hx (h.affinity hc)
  rw [elected_thread W, if_neg hxe, if_neg hxw, if_neg fun h => hxp h.1]

theorem Tables.select_node (h : s.Tables c) (hc : s.activeThread c = some prev)
    (hr : s.selectThread c now = .ok s') (hx : x ≠ prev) (hxs : x ∉ s.table (.sleeping c)) :
    s'.node x = s.node x := by
  obtain ⟨i, e, s₂, -, hs₂, -, -, -, hsel⟩ := h.selectThread now hc
  rw [hr] at hsel
  cases hsel
  have hxr : x ∉ (s.requeue c prev).table (.sleeping c) := fun hm =>
    (mem_requeue_sleeping.1 hm).elim hxs fun h => hx h.1
  show s₂.node x = s.node x
  rw [hs₂, wake_node _ hxr, requeue_node hx]

/-- The table of the CPU itself. -/
theorem Tables.select_byTime (h : s.Tables c) (hby : s.ByTime c)
    (hr : s.selectThread c now = .ok s') : s'.ByTime c := by
  obtain ⟨prev, hc, -⟩ := h.active
  obtain ⟨i, e, s₂, -, hs₂, -, -, -, hsel⟩ := h.selectThread now hc
  rw [hr] at hsel
  cases hsel
  have hby₂ : s₂.ByTime c := hs₂ ▸ ByTime.wake _ (h.requeue_asleep hby hc)
  have htab : (s₂.popped (.active c i)).table (.sleeping c) = s₂.table (.sleeping c) :=
    popped_table_of_ne (by simp)
  exact hby₂.congr htab fun x _ => ⟨rfl, setState_wakeupTime (s₂.popped (.active c i)) e .running x⟩

/-! ## A sleeper -/

/-- A thread of CPU `c` that sleeps until `w`. -/
structure Dozes (s : Sched) (c t w : ℕ) : Prop where
  state : (s.thread t).state = .sleeping
  affinity : (s.thread t).cpuAffinity = c
  time : (s.thread t).wakeupTime = w

/-- An election on the CPU wakes the sleeper up when its time has passed and none is in its way. -/
theorem Tables.select_dozes (h : s.Tables c) (hby : s.ByTime c) (hc : s.activeThread c = some prev)
    (hr : s.selectThread c now = .ok s') (hd : s.Dozes c t w)
    (ht : t ∈ (s.requeue c prev).table (.sleeping c)) :
    (w < now ∧ (s.requeue c prev).Clear c now t →
      (s'.thread t).state = .ready ∨ s'.activeThread c = some t)
    ∧ (¬ (w < now ∧ (s.requeue c prev).Clear c now t) →
      s'.Dozes c t w ∧ s'.activeThread c ≠ some t) := by
  obtain ⟨i, e, s₂, W, -, hqueued, -, hlast, hsel⟩ := h.selectThread now hc
  rw [hr] at hsel
  cases hsel
  have htime : ((s.requeue c prev).thread t).wakeupTime = w := by
    rw [requeue_thread]
    exact hd.time
  have hwoken : t ∈ (s.requeue c prev).woken c now
      ↔ w < now ∧ (s.requeue c prev).Clear c now t := by
    have hiff : ((s.requeue c prev).thread t).wakeupTime < now →
        (t ∈ (s.requeue c prev).woken c now ↔ (s.requeue c prev).Clear c now t) :=
      (h.requeue_asleep hby hc).mem_woken_iff ht
    rw [htime] at hiff
    refine ⟨fun hm => ?_, fun hw => (hiff hw.1).2 hw.2⟩
    have hdue := htime ▸ due_of_mem_woken hm
    exact ⟨hdue, (hiff hdue).1 hm⟩
  have hthread := elected_thread (s := s) W i e t
    (f := Function.update s₂.activeThread c (some e))
  rw [← hwoken]
  refine ⟨fun hm => ?_, fun hm => ?_⟩
  · by_cases hte : t = e
    · subst hte
      exact .inr (Function.update_self _ _ _)
    · refine .inl ?_
      rw [hthread, if_neg hte, if_pos hm]
  · have hte : t ≠ e := by
      rintro rfl
      rw [hqueued] at hlast
      rcases (h.of_mem_queued hc (fun _ => asleep_of_mem_woken)
        (List.mem_of_getLast? hlast)).2.2.2 with h1 | ⟨rfl, h1⟩ | h1
      · exact hm h1
      · simp [hd.state] at h1
      · simp [hd.state] at h1
    have hrun : ¬ (t = prev ∧ (s.thread prev).state = .running) := by
      rintro ⟨rfl, h1⟩
      simp [hd.state] at h1
    rw [if_neg hte, if_neg hm, if_neg hrun] at hthread
    refine ⟨⟨?_, ?_, ?_⟩, fun hact => hte ?_⟩
    · rw [hthread]
      exact hd.state
    · rw [hthread]
      exact hd.affinity
    · rw [hthread]
      exact hd.time
    · have hact' : Function.update s₂.activeThread c (some e) c = some t := hact
      rw [Function.update_self] at hact'
      exact (Option.some_inj.1 hact').symm

/-- A sleeper has yet to raise the scheduling interrupt, or is in its table. -/
theorem Core.dozes (h : s.Core s.activeThread) (hd : s.Dozes c t w) : (s.pc t).parks = true
    ∧ (s.activeThread c = some t ∧ s.pc t = .sched
      ∨ t ∈ s.table (.sleeping c) ∧ s.activeThread c ≠ some t) := by
  obtain ⟨loc, hl, hsit⟩ := (h.good t).place
  have hst := hd.state
  have ha := hd.affinity
  cases hsit with
  | drowsy _ ho hp => exact ⟨by rw [hp]; rfl, .inl ⟨ha ▸ ho, hp⟩⟩
  | sleeping _ ho hp =>
    rw [ha] at hl
    exact ⟨hp, .inr ⟨hl.mem_iff.2 rfl, ha ▸ ho⟩⟩
  | running h1 | ready h1 | waiting _ h1 | joining h1 => simp [hst] at h1
  | gone h1 | zombie h1 => simp [hst] at h1

/-! ## Runs -/

/-- A step but an election leaves the sleeping tables. -/
theorem Core.byTime_of_feeds {who : ℕ} (h : s.Core s.activeThread) (hby : s.ByTime c)
    (hwho : s.created ≤ who ∨ ∃ c, s.activeThread c = some who ∧ (s.pc who).switches = false)
    (hf : Feeds who s s') : s'.ByTime c := by
  refine hby.congr (hf.sleeping c) fun x hx => ?_
  obtain ⟨-, -, -, hoff, hpk, -⟩ := h.sleeper hx
  have hlt := h.lt_created (t := x) (by rintro hp; simp [hp, Pc.parks] at hpk)
  refine ⟨hf.prio x hlt, hf.time x hlt ?_⟩
  rintro rfl
  rcases hwho with hge | ⟨c', hc', -⟩
  · omega
  · exact hoff (h.on hc')

theorem Core.byTime_step (h : s.Core s.activeThread) (hby : ∀ c, s.ByTime c)
    (hs : s.step e = some s') (c : ℕ) : s'.ByTime c := by
  by_cases hsel : s.Selects c e
  · obtain ⟨prev, p, hc, -, hr⟩ := selects_spec hs hsel
    exact (h.tables hc).goto.select_byTime ⟨(hby c).key, (hby c).sorted⟩ hr
  · rcases step_feeds hs hsel with ⟨who, hwho, hf⟩ | ⟨c', now, t, p, hne, hc, -, hr⟩
    · exact h.byTime_of_feeds (hby c) hwho hf
    · -- an election on another CPU
      have htab : s'.table (.sleeping c) = (s.goto t p).table (.sleeping c) :=
        selectThread_table_of_ne (by simp) (by simpa using Ne.symm hne) hr
      have hT := (h.tables hc).goto (t := t) (p := p)
      refine (hby c).congr htab fun x hx => ?_
      obtain ⟨-, -, hxc, hoff, -⟩ := h.sleeper hx
      have hxt : x ≠ t := by
        rintro rfl
        exact hoff (h.on hc)
      have hxs : x ∉ (s.goto t p).table (.sleeping c') := fun hm =>
        hne ((hT.sleeping x hm).2.1.symm.trans hxc)
      have hxa : ((s.goto t p).thread x).cpuAffinity ≠ c' := fun ha => hne (ha.symm.trans hxc)
      rw [hT.select_node hc hr hxt hxs, hT.others hr hxa]
      exact ⟨rfl, rfl⟩

/-- No step but an election on its CPU wakes a sleeper up. -/
theorem Core.dozes_step (h : s.Core s.activeThread) (h' : s'.Core s'.activeThread)
    (hd : s.Dozes c t w) (hs : s.step e = some s') (hsel : ¬ s.Selects c e) : s'.Dozes c t w := by
  obtain ⟨hpk, hplace⟩ := h.dozes hd
  have hlt := h.lt_created (t := t) (by rintro hp; simp [hp, Pc.parks] at hpk)
  rcases step_feeds hs hsel with ⟨who, hwho, hf⟩ | ⟨c', now, t', p, hne, hc, -, hr⟩
  · have hne : t ≠ who := by
      rintro rfl
      rcases hwho with hge | ⟨c', hc', hsw⟩
      · omega
      · obtain rfl : c = c' := hd.affinity.symm.trans (h.active c' t hc').1
        rcases hplace with ⟨-, hp⟩ | ⟨-, hoff⟩
        · simp [hp, Pc.switches] at hsw
        · exact hoff hc'
    refine ⟨?_, (hf.affinity t hlt).trans hd.affinity, (hf.time t hlt hne).trans hd.time⟩
    rcases hf.rests t hlt hne (.inl hd.state) with hst | hst
    · exact hst.trans hd.state
    · -- it is not gone, so it is not marked dead
      have hgone := h'.gone_iff.2 (.inr hst)
      rw [hf.pc t hlt hne, Pc.not_gone_of_parks hpk] at hgone
      cases hgone
  · have hth : s'.thread t = s.thread t :=
      ((h.tables hc).goto (t := t') (p := p)).others hr fun ha => hne (ha.symm.trans hd.affinity)
    exact ⟨by rw [hth]; exact hd.state, by rw [hth]; exact hd.affinity, by rw [hth]; exact hd.time⟩

/-- An election on its CPU wakes a sleeper up when its time has passed and none is in its way. -/
theorem Core.dozes_select (h : s.Core s.activeThread) (hby : s.ByTime c) (hd : s.Dozes c t w)
    (hs : s.step e = some s') (hsel : s.Selects c e) : ∃ prev, s.activeThread c = some prev
      ∧ (w < e.now ∧ (s.requeue c prev).Clear c e.now t →
        (s'.thread t).state = .ready ∨ s'.activeThread c = some t)
      ∧ (¬ (w < e.now ∧ (s.requeue c prev).Clear c e.now t) →
        s'.Dozes c t w ∧ s'.activeThread c ≠ some t) := by
  obtain ⟨prev, p, hc, -, hr⟩ := selects_spec hs hsel
  have hT := (h.tables hc).goto (t := prev) (p := p)
  have ht : t ∈ ((s.goto prev p).requeue c prev).table (.sleeping c) := by
    rw [mem_requeue_sleeping]
    rcases (h.dozes hd).2 with ⟨hact, -⟩ | ⟨hm, -⟩
    · obtain rfl : t = prev := Option.some_inj.1 (hact.symm.trans hc)
      exact .inr ⟨rfl, hd.state⟩
    · exact .inl hm
  have hsel := hT.select_dozes ⟨hby.key, hby.sorted⟩ hc hr ⟨hd.state, hd.affinity, hd.time⟩ ht
  rw [requeue_goto] at hsel
  exact ⟨prev, hc, hsel⟩

theorem byTime_of_reach {m : ℕ} (h : Reach step RecordsInTime (schedInit m) s) :
    s.Steady ∧ ∀ c, s.ByTime c := by
  refine h.invariant (P := fun s => s.Steady ∧ ∀ c, s.ByTime c) ⟨.schedInit m, fun c => ?_⟩ ?_
  · have htab : (schedInit m).table (.sleeping c) = [] := rfl
    exact ⟨by simp [htab], by simp [htab]⟩
  · rintro s e s' ⟨hst, hby⟩ hrec hs
    exact ⟨(hst.step hrec hs).1, hst.core.byTime_step hby hs⟩

/-! ## The time stored -/

theorem uptime_iff : Uptime u ↔ 5 ∣ u ∧ u < 2 ^ 64 := by
  constructor
  · rintro ⟨ticks, hlt, rfl⟩
    exact ⟨⟨ticks, Nat.mod_eq_of_lt hlt⟩, Nat.mod_lt _ (by omega)⟩
  · rintro ⟨⟨ticks, rfl⟩, hlt⟩
    exact ⟨ticks, hlt, Nat.mod_eq_of_lt hlt⟩

instance (v : ℕ) : Decidable (Uptime v) := decidable_of_iff _ uptime_iff.symm

theorem timely_iff (hu : Uptime u) (hms : ms < 2 ^ 32) :
    (∀ v, Uptime v → ((u + ms + 2 ^ 64 - 1000 / kernelMainTimerFreq) % 2 ^ 64 < v ↔ u + ms ≤ v))
      ↔ Timely u ms := by
  have htick : 1000 / kernelMainTimerFreq = 5 := rfl
  obtain ⟨hu5, hult⟩ := uptime_iff.1 hu
  rw [htick]
  constructor
  · intro h
    -- the last uptime, the first that is not 0, and the last not past the wake-up
    have hlast := h (2 ^ 64 - 1) (uptime_iff.2 ⟨by omega, by omega⟩)
    have hfirst := h 5 (uptime_iff.2 ⟨by omega, by omega⟩)
    have hhigh : u + ms < 2 ^ 64 + 5 := by omega
    have hlow : 5 ≤ u + ms := by omega
    refine ⟨?_, by rwa [htick], by rwa [htick]⟩
    rw [htick]
    by_contra hdvd
    have hbefore := h ((u + ms) / 5 * 5) (uptime_iff.2 ⟨dvd_mul_left _ _, by omega⟩)
    omega
  · rintro ⟨h1, h2, h3⟩ v hv
    obtain ⟨hv5, hvlt⟩ := uptime_iff.1 hv
    rw [htick] at h1 h2 h3
    omega

/-! ## The sleep -/

/-- A thread that sleeps for a whole number of ticks sleeps until the first election of its CPU at an
uptime not before the one asked for, which wakes it up unless a sleeper is in its way. For another
number of milliseconds the time stored has passed at an uptime before. -/
theorem sleep_woken_in_time {m : ℕ} {s₀ s₁ : Sched}
    (h₀ : Reach step RecordsInTime (schedInit m) s₀) (hc : s₀.activeThread c = some t)
    (hu : Uptime u) (hms : ms < 2 ^ 32) (hs₁ : s₀.step (.call c u (.sleep ms)) = some s₁) :
    ((∀ v, Uptime v → ((s₁.thread t).wakeupTime < v ↔ u + ms ≤ v)) ↔ Timely u ms)
    ∧ (Timely u ms → ∀ s, Reach step (fun r e => r.RecordsInTime e
          ∧ (r.Selects c e → Uptime e.now ∧ e.now < u + ms)) s₁ s →
        (s.thread t).state = .sleeping
        ∧ ∀ e s', s.Selects c e → Uptime e.now → u + ms ≤ e.now → s.step e = some s' →
          ((s'.thread t).state = .ready ∨ s'.activeThread c = some t
            ↔ ∀ prev ∈ s.activeThread c, (s.requeue c prev).Clear c e.now t)) := by
  obtain ⟨hst₀, hby₀⟩ := byTime_of_reach h₀
  set w := (u + ms + 2 ^ 64 - 1000 / kernelMainTimerFreq) % 2 ^ 64 with hw
  have hd₁ : s₁.Dozes c t w := by
    cases step_spec hs₁ with
    | call _ _ t' _ _ hc' _ hr =>
      obtain rfl : t = t' := Option.some_inj.1 (hc.symm.trans hc')
      cases hr
      have hth : (s₀.sleep t ms u).thread t
          = { s₀.thread t with wakeupTime := w, state := .sleeping } := Function.update_self _ _ _
      exact ⟨by rw [hth], by rw [hth]; exact (hst₀.core.active c t hc).1, by rw [hth]⟩
  have htimely := timely_iff hu hms
  refine ⟨by rw [hd₁.time]; exact htimely, fun hti s hr => ?_⟩
  have hdue := htimely.2 hti
  obtain ⟨hst, hby, hd⟩ : s.Steady ∧ (∀ c, s.ByTime c) ∧ s.Dozes c t w := by
    refine hr.invariant (P := fun s => s.Steady ∧ (∀ c, s.ByTime c) ∧ s.Dozes c t w)
      ⟨(hst₀.step (e := .call c u (.sleep ms)) trivial hs₁).1, hst₀.core.byTime_step hby₀ hs₁, hd₁⟩ ?_
    rintro s e s' ⟨hst, hby, hd⟩ ⟨hrec, hsel⟩ hs
    have hst' := (hst.step hrec hs).1
    refine ⟨hst', hst.core.byTime_step hby hs, ?_⟩
    by_cases h : s.Selects c e
    · obtain ⟨prev, -, -, hstays⟩ := hst.core.dozes_select (hby c) hd hs h
      exact (hstays fun hwoken =>
        absurd ((hdue _ (hsel h).1).1 hwoken.1) (not_le.2 (hsel h).2)).1
    · exact hst.core.dozes_step hst'.core hd hs h
  refine ⟨hd.state, fun e s' hsel hup hle hs => ?_⟩
  obtain ⟨prev, hprev, hwakes, hstays⟩ := hst.core.dozes_select (hby c) hd hs hsel
  rw [hprev]
  constructor
  · intro hawake p hp
    obtain rfl : prev = p := Option.some_inj.1 hp
    by_contra hclear
    obtain ⟨hd', hact⟩ := hstays fun h => hclear h.2
    rcases hawake with h1 | h1
    · simp [hd'.state] at h1
    · exact hact h1
  · exact fun hclear => hwakes ⟨(hdue _ hup).2 hle, hclear prev rfl⟩

/-- Ten milliseconds are two ticks. -/
theorem sleep_woken_in_time_two_ticks : ∃ s₀ s₁ s s' : Sched,
    Reach step RecordsInTime (schedInit 1) s₀ ∧ s₀.activeThread 0 = some 2
    ∧ s₀.step (.call 0 100 (.sleep 10)) = some s₁
    ∧ runEvents step s₁ [.stmt 0 100, .timer 0 105] = some s ∧ (s.thread 2).state = .sleeping
    ∧ s.step (.timer 0 110) = some s'
    ∧ ((s'.thread 2).state = .ready ∨ s'.activeThread 0 = some 2) := by
  have hrun : (runEvents (guarded step RecordsInTime) (schedInit 1) [.timer 0 0,
      .call 0 0 (.create 0 0 6), .timer 0 0]).any (fun s₀ => decide (s₀.activeThread 0 = some 2)
        && (s₀.step (.call 0 100 (.sleep 10))).any fun s₁ =>
          (runEvents (guarded step fun r e => r.RecordsInTime e ∧ (r.Selects 0 e →
            Uptime e.now ∧ e.now < 100 + 10)) s₁ [.stmt 0 100, .timer 0 105]).any fun s =>
            decide (s.Selects 0 (.timer 0 110)) && (s.step (.timer 0 110)).isSome
            && decide (∀ prev ∈ s.activeThread 0, ∀ y ∈ (s.requeue 0 prev).table (.sleeping 0),
              ((s.requeue 0 prev).thread y).wakeupTime < 110)) = true := by
    decide +kernel
  simp only [Option.any_eq_true, Bool.and_eq_true, decide_eq_true_eq, Option.isSome_iff_exists]
    at hrun
  obtain ⟨s₀, hs₀, hc, s₁, hs₁, s, hs, ⟨hsel, s', hs'⟩, hdue⟩ := hrun
  have hti : Timely 100 10 := ⟨by decide, by decide, by decide⟩
  obtain ⟨hst, hwakes⟩ := (sleep_woken_in_time (.of_run hs₀) hc (uptime_iff.2 (by decide))
    (by decide) hs₁).2 hti s (.of_run hs)
  refine ⟨s₀, s₁, s, s', .of_run hs₀, hc, hs₁, runEvents_of_guarded hs, hst, hs', ?_⟩
  exact (hwakes _ s' hsel (uptime_iff.2 (by decide)) (by decide) hs').2
    fun prev hprev y hy hlate => absurd (hdue prev hprev y hy) (not_lt.2 hlate)

/-- Seven milliseconds are not: the thread is woken up two before. -/
theorem sleep_woken_early : ∃ s₀ s₁ s s' : Sched,
    Reach step RecordsInTime (schedInit 1) s₀ ∧ s₀.activeThread 0 = some 2
    ∧ Uptime 100 ∧ s₀.step (.call 0 100 (.sleep 7)) = some s₁ ∧ s₁.step (.stmt 0 100) = some s
    ∧ (s.thread 2).state = .sleeping ∧ Uptime 105 ∧ 105 < 100 + 7
    ∧ s.step (.timer 0 105) = some s' ∧ (s'.thread 2).state = .ready := by
  have hrun : (runEvents (guarded step RecordsInTime) (schedInit 1) [.timer 0 0,
      .call 0 0 (.create 0 0 6), .timer 0 0]).any (fun s₀ => decide (s₀.activeThread 0 = some 2)
        && (s₀.step (.call 0 100 (.sleep 7))).any fun s₁ => (s₁.step (.stmt 0 100)).any fun s =>
          decide ((s.thread 2).state = .sleeping) && (s.step (.timer 0 105)).any fun s' =>
            decide ((s'.thread 2).state = .ready)) = true := by
    decide +kernel
  simp only [Option.any_eq_true, Bool.and_eq_true, decide_eq_true_eq] at hrun
  obtain ⟨s₀, hs₀, hc, s₁, hs₁, s, hs, hst, s', hs', hst'⟩ := hrun
  exact ⟨s₀, s₁, s, s', .of_run hs₀, hc, uptime_iff.2 (by decide), hs₁, hs, hst,
    uptime_iff.2 (by decide), by decide, hs', hst'⟩

end Sched

end RTLKIM

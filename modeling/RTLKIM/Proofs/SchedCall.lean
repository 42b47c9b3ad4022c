import RTLKIM.Proofs.SchedSelect

/-!
# The calls, and every step

The calls that are one step, thread creation, and from these and the statements: a step keeps `Core`
and does not panic, unless it records a joiner on a target between its search and its wake up.
-/

namespace RTLKIM

namespace Sched

variable {s s' : Sched} {act : ℕ → Option ℕ} {t x c now n : ℕ}

theorem Core.notIdle_of_ne (h : s.Core act) (hc : act c = some t) (hne : t ≠ s.idleThread c) :
    s.NotIdle t := by
  intro c' hc' hi
  have := ((h.good t).idle c' hc' hi).2.1
  rw [(h.active c t hc).1] at this
  exact hne (by rw [this, hi])

section Caller

variable (h : s.Core act) (hc : act c = some t) (hidle : s.NotIdle t) (hp : s.pc t = .run)

include h hc hidle hp

theorem Core.sleep (ms : ℕ) : (s.sleep t ms now).Core act := by
  have h' := h.shift (p := .sched) hc hidle (by rw [hp]; rfl) (by rw [hp]; rfl)
    (f := fun T => { T with
      wakeupTime := (now + ms + 2 ^ 64 - 1000 / kernelMainTimerFreq) % 2 ^ 64, state := .sleeping })
    rfl rfl (h.good t).prio (fun ho => .drowsy rfl ho rfl) rfl rfl
  exact h'.of_all_same ⟨rfl, rfl, rfl, fun _ h => h⟩
    fun x => ⟨rfl, rfl, rfl, rfl, rfl, rfl, rfl, rfl, rfl, fun _ h => h⟩

theorem Core.setPriority (k : ℕ) : (s.setPriority t k).Core act := by
  unfold Sched.setPriority
  split_ifs with hk
  · exact h.returns _
  · have hrun := h.running hc (by rw [hp]; rfl) (by rw [hp]; rfl)
    have h' := h.shift (p := .run) hc hidle (by rw [hp]; rfl) (by rw [hp]; rfl)
      (f := fun T => { T with priority := k }) rfl rfl (Nat.le_of_not_lt hk)
      (fun ho => .running hrun.1 ho rfl) rfl rfl
    have hpc : Function.update s.pc t .run = s.pc := by
      rw [← hp]
      exact Function.update_eq_self t s.pc
    exact h'.of_all_same ⟨rfl, rfl, rfl, fun _ h => h⟩
      fun x => ⟨rfl, rfl, rfl, rfl, rfl, rfl, (congrFun hpc x).symm, rfl, rfl, fun _ h => h⟩

theorem Core.lock (type : WaitType) (object : ℕ) : (s.lock t type object).Core act := by
  obtain ⟨hrun, hl⟩ := h.running hc (by rw [hp]; rfl) (by rw [hp]; rfl)
  have hgt := h.good t
  have e : (s.lock t type object).thread t
      = { s.thread t with state := .waiting, blockType := type } := Function.update_self _ _ _
  have e' : (s.lock t type object).pc t = .sched := Function.update_self _ _ _
  have hlt := (h.active c t hc).2
  have hl' : Located (s.lock t type object).table t (some (.waiting type object)) := Located.push hl
  refine h.change hlt hidle ⟨rfl, rfl, rfl, fun _ h => h⟩
    (fun x hx => ((Same.setThread _ hx).trans (.push _ hx)).trans (.goto _ hx)) (by rw [e])
    ⟨_, hl', ?_⟩ (by rw [e]; exact hgt.prio) rfl ?_ ?_ ?_ ?_ ?_ ?_ ?_ <;> rw [e']
  · rw [e]
    exact .waiting object rfl rfl fun _ => rfl
  · simp [hp, Pc.gone]
  · simp [Pc.pushed]
  · rw [e]
    exact fun _ => hgt.children hlt (by rw [hp]; rfl)
  · simp
  · simp
  · rw [e]
    exact fun hi => ⟨rfl, (hgt.init hi).2⟩
  · simp

end Caller

/-- The waiter made ready. -/
theorem Core.release (h : s.Core act) {type : WaitType} {object : ℕ}
    (hn : (s.table (.waiting type object)).getLast? = some n) :
    (s.node n).data = some n ∧ (s.thread n).state = .waiting ∧ (s.thread n).blockType = type
      ∧ s.NotIdle n ∧ (((s.popped (.waiting type object)).setState n .ready).push
        (.active (s.thread n).cpuAffinity (s.thread n).priority) n).Core act := by
  have hgn := h.good n
  obtain ⟨loc, hl, hsit⟩ := hgn.place
  obtain rfl := hl.eq_of_mem (List.mem_of_getLast? hn)
  generalize hq : some (Table.waiting type object) = q at hsit
  cases hsit with
  | running | ready | drowsy | sleeping | joining | gone | zombie => simp at hq
  | waiting o h1 h2 h3 =>
    obtain ⟨rfl, rfl⟩ : type = (s.thread n).blockType ∧ object = o := by simpa using hq
    have hg := Pc.not_gone_of_parks h2
    have hidle := h.notIdle_of_state (t := n) (by simp [h1]) (by simp [h1])
    have hlt := h.lt_created (t := n) (by intro hp; simp [hp, Pc.parks] at h2)
    refine ⟨hgn.node.resolve_right fun hn => by simp [hg] at hn, h1, rfl, hidle, ?_⟩
    set s' := ((s.popped (.waiting (s.thread n).blockType object)).setState n .ready).push
        (.active (s.thread n).cpuAffinity (s.thread n).priority) n with hs'
    have e : s'.thread n = { s.thread n with state := .ready } := Function.update_self _ _ _
    have hl' : Located ((s.popped (.waiting (s.thread n).blockType object)).setState n .ready).table n
        none := Located.popped hl hn
    refine h.change hlt hidle ⟨rfl, rfl, rfl, fun _ h => h⟩
      (fun x hx => ((Same.popped hn hx).trans (.setState _ hx)).trans (.push _ hx)) (by rw [e])
      ⟨_, Located.push hl', ?_⟩ (by rw [e]; exact hgn.prio) rfl id (fun hp => ?_)
      (by rw [e]; exact hgn.children hlt) (by rw [e]; exact hgn.emptied) (by rw [e]; exact hgn.found)
      (by rw [e]; exact hgn.init) hgn.stays
    · rw [e]
      exact .ready rfl hg h3
    · have hp' : (s.pc n).pushed = true := hp
      simp [Pc.pushed_of_not_gone hg] at hp'

/-- An unlock does not panic: what it pops is a waiter of its own kind. -/
theorem Core.unlock (h : s.Core s.activeThread) (hc : s.activeThread c = some t)
    (hne : t ≠ s.idleThread c) (hp : s.pc t = .run) (type : WaitType) (object : ℕ) (d : Bool) :
    ∃ s', s.unlock c t type object d = .ok s' ∧ s'.Core s.activeThread
      ∧ s'.activeThread = s.activeThread := by
  unfold Sched.unlock
  rcases hn : (s.table (.waiting type object)).getLast? with _ | n
  · exact ⟨s, rfl, h, rfl⟩
  obtain ⟨hdata, hst, hbt, hidle, h'⟩ := h.release hn
  simp only []
  rw [hdata]
  simp only []
  rw [if_neg (fun he => hidle c (by simp [hc]) he.symm), if_neg (by simp [hst, hbt])]
  refine ⟨_, rfl, ?_, rfl⟩
  set s' := ((s.popped (.waiting type object)).setState n .ready).push
    (.active (s.thread n).cpuAffinity (s.thread n).priority) n with hs'
  have hp' : s'.pc t = .run := hp
  exact h'.goto_running hc (h.notIdle_of_ne hc hne) (by rw [hp']; rfl) (by rw [hp']; rfl)
    (by split_ifs <;> rfl)

/-! ## Creation -/

/-- A thread more, ready or active, on no table but the one of its priority. -/
theorem Core.add (h : s.Core act) {act' : ℕ → Option ℕ} {l : Option Table}
    (hcr : s'.created = s.created + 1) (hinit : s'.initThread = s.initThread)
    (hidle : ∀ c x, x ≠ s.created → s'.activeThread c ≠ none → s'.idleThread c = x →
      s.activeThread c ≠ none ∧ s.idleThread c = x)
    (hact : ∀ c x, x ≠ s.created → (act' c = some x ↔ act c = some x))
    (hsame : ∀ x, x ≠ s.created → Same s s' x)
    (hon : ∀ c, act' c = some s.created → (s'.thread s.created).cpuAffinity = c)
    (hpc : s'.pc s.created = .run) (hl : Located s'.table s.created l)
    (hsit : Sit (s'.thread s.created) .run (s'.On act' s.created) l)
    (hprio : (s'.thread s.created).priority ≤ kernelLowestPriority)
    (hnode : (s'.node s.created).data = some s.created)
    (hchildren : (s'.thread s.created).children ≠ none)
    (hnew : ∀ c, s'.activeThread c ≠ none → s'.idleThread c = s.created →
      (s'.thread s.created).cpuAffinity = c
        ∧ ((s'.thread s.created).state = .running ∨ (s'.thread s.created).state = .ready)) :
    s'.Core act' := by
  have hi := h.init
  refine ⟨fun x => ?_, fun c x hx => ?_, by rw [hinit, hcr]; omega⟩
  · by_cases hx : x = s.created
    · subst hx
      refine ⟨⟨l, hl, by rw [hpc]; exact hsit⟩, hprio, .inl hnode, ?_, fun _ _ => hchildren, ?_, ?_,
        ?_, fun c hc hi => ?_, fun hge => absurd hge (by rw [hcr]; omega), by rw [hpc]; simp⟩
      · rw [hpc]
        simp [Pc.pushed]
      · rw [hpc]
        simp
      · rw [hpc]
        simp
      · exact fun _ => ⟨by rw [hpc]; rfl, hchildren⟩
      · obtain ⟨h1, h2⟩ := hnew c hc hi
        exact ⟨hpc, h1, by rw [hcr]; omega, h2⟩
    · refine (h.good x).same (hsame x hx)
        ⟨by rw [hcr]; omega, by rw [hinit], fun c hc hi => hidle c x hx hc hi⟩ ?_
      unfold On
      rw [(hsame x hx).affinity, hact _ x hx]
  · rw [hcr]
    by_cases hxn : x = s.created
    · subst hxn
      exact ⟨hon c hx, by omega⟩
    · rw [hact c x hxn] at hx
      obtain ⟨h1, h2⟩ := h.active c x hx
      exact ⟨by rw [(hsame x hxn).affinity]; exact h1, by omega⟩

theorem Same.newThread (T : Thread) (hx : x ≠ s.created) : Same s (s.newThread T) x := by
  have e : (s.newThread T).thread x = s.thread x := Function.update_of_ne hx _ _
  refine ⟨by rw [e], by rw [e], by rw [e], by rw [e], by rw [e], by rw [e], ?_, ?_, rfl,
    fun _ h => h⟩
  · exact Function.update_of_ne hx _ _
  · exact congrArg QueueNode.data (Function.update_of_ne hx _ _)

theorem newThread_data (T : Thread) : ((s.newThread T).node s.created).data = some s.created := by
  simp [Sched.newThread]

theorem Core.createKernelThread (h : s.Core act) (hc : act c = some t) (hp : s.pc t = .run)
    (k a m : ℕ) : (s.createKernelThread t k a m).Core act := by
  unfold Sched.createKernelThread
  split_ifs with h1 h2 h3 h4
  · exact h.returns _
  · exact h.returns _
  · exact h.returns _
  · exact h.of_all_same ⟨rfl, rfl, rfl, fun _ h => h⟩
      fun x => ⟨rfl, rfl, rfl, rfl, rfl, rfl, rfl, rfl, rfl, fun _ h => h⟩
  · obtain ⟨l, hl⟩ := Option.ne_none_iff_exists'.1
      ((h.good t).children (h.active c t hc).2 (by rw [hp]; rfl))
    have hset : (s.setThread t fun T => { T with children := T.children.map (s.created :: ·) })
        = s.setThread t fun T => { T with children := some (s.created :: l) } := by
      unfold Sched.setThread
      simp only [hl, Option.map_some]
    simp only [hset]
    have h₁ := h.setChildren (s.created :: l) (x := t) (by rw [hp]; simp)
    set s₁ := s.setThread t fun T => { T with children := some (s.created :: l) } with hs₁
    have hoff : ∀ c, act c ≠ some s₁.created := by
      intro c hc
      have := (h₁.active c _ hc).2
      omega
    have hfresh := ((h₁.good s₁.created).fresh le_rfl).2
    set T : Thread := ⟨add32 s₁.lastGivenTid 1, (s₁.thread t).tid, k, .ready, .sem, 0, none, some [],
      a, 0, .correctly⟩ with hT
    set s₂ : Sched := ({ (s₁.newThread T).push (.active a k) s₁.created with
      creator := Function.update s₁.creator s.created (some t) } : Sched).fails t .noErr with hs₂
    have e : s₂.thread s₁.created = T := Function.update_self _ _ _
    show s₂.Core act
    refine h₁.add (l := some (.active a k)) rfl rfl (fun _ _ _ hc hi => ⟨hc, hi⟩)
      (fun _ _ _ => Iff.rfl) (fun x hx => ?_) (fun c hc => absurd hc (hoff c))
      (Function.update_self _ _ _) (hfresh.insert_self (.refl _)) ?_ ?_ (newThread_data T) ?_ ?_
    · refine ((Same.newThread T hx).trans (.push (.active a k) hx)).trans ?_
      exact ⟨rfl, rfl, rfl, rfl, rfl, rfl, rfl, rfl, rfl, fun _ h => h⟩
    · unfold On
      rw [e]
      exact .ready rfl rfl fun ho => absurd ho (hoff _)
    · rw [e]
      exact Nat.le_of_not_lt h2
    · rw [e]
      simp
    · intro c' hc' hi
      have := ((h₁.good s₁.created).idle c' hc' hi).2.2.1
      omega

theorem Core.createIdle (h : s.Core s.activeThread) (hc : s.activeThread c = none) :
    (s.createIdle c).Core (s.createIdle c).activeThread := by
  have hfresh := ((h.good s.created).fresh le_rfl).2
  have hoff : ∀ c, s.activeThread c ≠ some s.created := by
    intro c hc
    have := (h.active c _ hc).2
    omega
  set T : Thread := ⟨s.lastGivenTid, s.lastGivenTid, idleThreadPriority, .running, .sem, 0, none,
    some [], c, 0, .correctly⟩ with hT
  have e : (s.createIdle c).thread s.created = T := Function.update_self _ _ _
  have hact : (s.createIdle c).activeThread = Function.update s.activeThread c (some s.created) := rfl
  have hidle : (s.createIdle c).idleThread = Function.update s.idleThread c s.created := rfl
  refine h.add (l := none) rfl rfl (fun c' x hx hc' hi => ?_) (fun c' x hx => ?_) (fun x hx => ?_)
    (fun c' hc' => ?_) (Function.update_self _ _ _) hfresh ?_ ?_ (newThread_data T) ?_ ?_
  · by_cases hcc : c' = c
    · rw [hidle, hcc, Function.update_self] at hi
      exact absurd hi.symm hx
    · rw [hidle, Function.update_of_ne hcc] at hi
      rw [hact, Function.update_of_ne hcc] at hc'
      exact ⟨hc', hi⟩
  · rw [hact]
    exact update_active_iff (by simp [hc]) (by simpa using Ne.symm hx)
  · exact (Same.newThread T hx).trans ⟨rfl, rfl, rfl, rfl, rfl, rfl, rfl, rfl, rfl, fun _ h => h⟩
  · rw [e]
    by_contra hne
    rw [hact, Function.update_of_ne (Ne.symm hne)] at hc'
    exact hoff c' hc'
  · refine .running (by rw [e]) ?_ rfl
    unfold On
    rw [e, hact]
    exact Function.update_self _ _ _
  · rw [e]
  · rw [e]
    simp
  · intro c' hc' hi
    rw [e]
    refine ⟨?_, .inl rfl⟩
    by_contra hne
    rw [hidle, Function.update_of_ne (Ne.symm hne)] at hi
    rw [hact, Function.update_of_ne (Ne.symm hne)] at hc'
    have := ((h.good s.created).idle c' hc' hi).2.2.1
    omega

end Sched

end RTLKIM

import RTLKIM.Proofs.SchedPlace

/-!
# The statements keep every thread in its place

One lemma for each statement of `sched_wait_thread` and `thread_exit` and for each call that is one
step. `Core.change` reduces a step that moves one thread to what becomes of that thread.
-/

namespace RTLKIM

namespace Sched

variable {s s' : Sched} {act : ℕ → Option ℕ} {t x c : ℕ} {p : Pc} {f : Thread → Thread}

/-- Not the idle thread of a CPU. -/
def NotIdle (s : Sched) (t : ℕ) : Prop := ∀ c, s.activeThread c ≠ none → s.idleThread c ≠ t

theorem Core.notIdle (h : s.Core act) (hp : s.pc t ≠ .run) : s.NotIdle t :=
  fun c hc hi => hp ((h.good t).idle c hc hi).1

theorem Core.on (h : s.Core act) (hc : act c = some t) : s.On act t := by
  unfold On
  rw [(h.active c t hc).1]
  exact hc

/-- A thread that goes on with its own code, or into a call, is running and linked nowhere. -/
theorem Core.running (h : s.Core act) (hc : act c = some t) (hy : (s.pc t).yields = false)
    (hg : (s.pc t).gone = false) : (s.thread t).state = .running ∧ Located s.table t none := by
  obtain ⟨loc, hl, hsit⟩ := (h.good t).place
  have ho := h.on hc
  cases hsit with
  | running h1 => exact ⟨h1, hl⟩
  | ready _ _ h3 | waiting _ _ _ h3 | joining _ _ h3 => simp [h3 ho] at hy
  | drowsy _ _ h3 => simp [h3, Pc.yields] at hy
  | sleeping _ h2 => exact absurd ho h2
  | gone _ h2 => simp [h2] at hg
  | zombie _ h2 => simp [Pc.gone_of_pushed h2] at hg

theorem Core.gone_iff (h : s.Core act) : (s.pc t).gone = true
    ↔ (s.thread t).state = .zombie ∨ (s.thread t).state = .dead := by
  obtain ⟨loc, -, hsit⟩ := (h.good t).place
  constructor
  · intro hg
    cases hsit with
    | running _ _ h2 | ready _ h2 => simp [h2] at hg
    | drowsy _ _ h2 => simp [h2, Pc.gone] at hg
    | sleeping _ _ h2 | waiting _ _ h2 => simp [Pc.not_gone_of_parks h2] at hg
    | joining _ h2 => simp [Pc.not_gone_of_joins h2] at hg
    | gone h1 | zombie h1 => exact h1
  · intro hst
    cases hsit with
    | running h1 | ready h1 | drowsy h1 | sleeping h1 | waiting _ h1 | joining h1 => simp [h1] at hst
    | gone _ h2 => exact h2
    | zombie _ h2 => exact Pc.gone_of_pushed h2

/-- A step that moves `t`. -/
theorem Core.change (h : s.Core act) (hlt : t < s.created) (hidle : s.NotIdle t) (hs : Still s s')
    (hx : ∀ x, x ≠ t → Same s s' x) (ha : (s'.thread t).cpuAffinity = (s.thread t).cpuAffinity)
    (hplace : ∃ loc, Located s'.table t loc ∧ Sit (s'.thread t) (s'.pc t) (s.On act t) loc)
    (hprio : (s'.thread t).priority ≤ kernelLowestPriority)
    (hnode : (s'.node t).data = (s.node t).data)
    (hgone : (s.pc t).gone = true → (s'.pc t).gone = true)
    (hzombies : (s'.pc t).pushed = true → t ≠ s.initThread → s'.freed t = false →
      t ∈ s'.table .zombie)
    (hchildren : (s'.pc t).deleted = false → (s'.thread t).children ≠ none)
    (hemptied : s'.pc t = .exitDelete → (s'.thread t).children = some [])
    (hfound : ∀ j, s'.pc t = .exitWake (some j) → (s'.thread t).joiningThread = some j)
    (hinit : t = s.initThread → (s'.pc t).inner = false ∧ (s'.thread t).children ≠ none)
    (hstays : s.On act t → s'.pc t ≠ .exited) : s'.Core act := by
  refine h.of_same hs hx ha
    ⟨?_, hprio, ?_, fun _ hp hi hf => hzombies hp (by rwa [hs.init] at hi) hf,
      fun _ => hchildren, hemptied, hfound, fun hi => hinit (by rwa [hs.init] at hi), ?_, ?_, ?_⟩
  · obtain ⟨loc, hl, hsit⟩ := hplace
    refine ⟨loc, hl, ?_⟩
    rwa [On, ha]
  · rw [hnode]
    exact (h.good t).node.imp_right (And.imp_right hgone)
  · intro c hc hi
    rw [hs.idle] at hi
    exact absurd hi (hidle c (hs.active c hc))
  · intro hc
    rw [hs.created] at hc
    omega
  · intro hon
    unfold On at hon
    rw [ha] at hon
    exact hstays hon

/-! ## Moves -/

/-- The thread goes on to `p`. -/
theorem Core.goto (h : s.Core act) (hlt : t < s.created) (hidle : s.NotIdle t)
    (hsit : ∀ loc, Sit (s.thread t) (s.pc t) (s.On act t) loc → Sit (s.thread t) p (s.On act t) loc)
    (hgone : (s.pc t).gone = true → p.gone = true)
    (hpushed : p.pushed = true → t ≠ s.initThread → (s.pc t).pushed = true)
    (hdeleted : p.deleted = false → (s.pc t).deleted = false)
    (hemptied : p = .exitDelete → (s.thread t).children = some [])
    (hfound : ∀ j, p = .exitWake (some j) → (s.thread t).joiningThread = some j)
    (hinit : t = s.initThread → p.inner = false) (hstays : p ≠ .exited) :
    (s.goto t p).Core act := by
  have hpc : (s.goto t p).pc t = p := Function.update_self _ _ _
  obtain ⟨loc, hl, hst⟩ := (h.good t).place
  refine h.change hlt hidle ⟨rfl, rfl, rfl, fun _ h => h⟩ (fun x hx => .goto p hx) rfl ⟨loc, hl, ?_⟩
    (h.good t).prio rfl ?_ ?_ ?_ ?_ ?_ ?_ ?_ <;> rw [hpc]
  · exact hsit loc hst
  · exact hgone
  · exact fun hp hi hf => (h.good t).zombies hlt (hpushed hp hi) hi hf
  · exact fun hp => (h.good t).children hlt (hdeleted hp)
  · exact hemptied
  · exact hfound
  · exact fun hi => ⟨hinit hi, ((h.good t).init hi).2⟩
  · exact fun _ => hstays

/-- A running thread goes on, still running. -/
theorem Core.goto_running (h : s.Core act) (hc : act c = some t) (hidle : s.NotIdle t)
    (hy : (s.pc t).yields = false) (hg : (s.pc t).gone = false) (hp : p.gone = false) :
    (s.goto t p).Core act := by
  have hrun := h.running hc hy hg
  refine h.goto (h.active c t hc).2 hidle (fun loc hsit => ?_) (fun h => by simp [h] at hg) ?_ ?_ ?_
    ?_ ?_ (by rintro rfl; simp [Pc.gone] at hp)
  · cases hsit with
    | running h1 h2 h3 => exact .running h1 h2 hp
    | ready h1 | drowsy h1 | sleeping h1 | waiting _ h1 | joining h1 => simp [h1] at hrun
    | gone _ h2 => simp [h2] at hg
    | zombie _ h2 => simp [Pc.gone_of_pushed h2] at hg
  · intro hpu
    simp [Pc.gone_of_pushed hpu] at hp
  · exact fun _ => Pc.deleted_of_not_gone hg
  · rintro rfl
    simp [Pc.gone] at hp
  · rintro j rfl
    simp [Pc.gone] at hp
  · exact fun _ => Pc.inner_of_not_gone hp

/-- The thread goes on inside `thread_exit`. -/
theorem Core.goto_gone (h : s.Core act) (hlt : t < s.created) (hg : (s.pc t).gone = true)
    (hp : p.gone = true) (hpushed : (s.pc t).pushed = true → p.pushed = true)
    (hpushed' : p.pushed = true → t ≠ s.initThread → (s.pc t).pushed = true)
    (hdeleted : p.deleted = false → (s.pc t).deleted = false)
    (hemptied : p = .exitDelete → (s.thread t).children = some [])
    (hfound : ∀ j, p = .exitWake (some j) → (s.thread t).joiningThread = some j)
    (hinit : t = s.initThread → p.inner = false) (hstays : p ≠ .exited) :
    (s.goto t p).Core act := by
  refine h.goto hlt (h.notIdle (by rintro hr; simp [hr, Pc.gone] at hg)) (fun loc hsit => ?_)
    (fun _ => hp) hpushed' hdeleted hemptied hfound hinit hstays
  have hst := h.gone_iff.1 hg
  cases hsit with
  | running h1 | ready h1 | drowsy h1 | sleeping h1 | waiting _ h1 | joining h1 => simp [h1] at hst
  | gone h1 h2 => exact .gone h1 hp
  | zombie h1 h2 => exact .zombie h1 (hpushed h2)

/-- Every thread is as it was. -/
theorem Core.of_all_same (h : s.Core act) (hs : Still s s') (hx : ∀ x, Same s s' x) :
    s'.Core act where
  good x := (h.good x).same (hx x) (hs.at x) (by unfold On; rw [(hx x).affinity])
  active c x hc := by
    rw [hs.created, (hx x).affinity]
    exact h.active c x hc
  init := by
    rw [hs.init, hs.created]
    exact h.init

theorem Core.returns (h : s.Core act) (r : CallRet) : (s.returns t r).Core act :=
  h.of_all_same ⟨rfl, rfl, rfl, fun _ h => h⟩ fun _ => .returns r

/-- A field that `Core` does not read. -/
theorem Core.setThread (h : s.Core act) (hf : ∀ T, (f T).state = T.state
    ∧ (f T).cpuAffinity = T.cpuAffinity ∧ (f T).priority = T.priority ∧ (f T).blockType = T.blockType
    ∧ (f T).children = T.children ∧ (f T).joiningThread = T.joiningThread) :
    (s.setThread t f).Core act := by
  refine h.of_all_same ⟨rfl, rfl, rfl, fun _ h => h⟩ fun x => ?_
  by_cases hx : x = t
  · subst hx
    have e : (s.setThread x f).thread x = f (s.thread x) := Function.update_self _ _ _
    obtain ⟨h1, h2, h3, h4, h5, h6⟩ := hf (s.thread x)
    exact ⟨by rw [e, h1], by rw [e, h2], by rw [e, h3], by rw [e, h4], by rw [e, h5], by rw [e, h6],
      rfl, rfl, rfl, fun _ h => h⟩
  · exact .setThread f hx

/-- A running thread changes and goes on, linked nowhere. -/
theorem Core.shift (h : s.Core act) (hc : act c = some t) (hidle : s.NotIdle t)
    (hy : (s.pc t).yields = false) (hg : (s.pc t).gone = false)
    (ha : (f (s.thread t)).cpuAffinity = (s.thread t).cpuAffinity)
    (hch : (f (s.thread t)).children = (s.thread t).children)
    (hprio : (f (s.thread t)).priority ≤ kernelLowestPriority)
    (hsit : s.On act t → Sit (f (s.thread t)) p (s.On act t) none) (hp : p.pushed = false)
    (hin : p.inner = false) : ((s.setThread t f).goto t p).Core act := by
  have e : ((s.setThread t f).goto t p).thread t = f (s.thread t) := Function.update_self _ _ _
  have e' : ((s.setThread t f).goto t p).pc t = p := Function.update_self _ _ _
  have hlt := (h.active c t hc).2
  have hne : (s.thread t).children ≠ none :=
    (h.good t).children hlt (Pc.deleted_of_not_gone hg)
  refine h.change hlt hidle ⟨rfl, rfl, rfl, fun _ h => h⟩
    (fun x hx => (Same.setThread f hx).trans (.goto p hx)) (by rw [e, ha])
    ⟨none, (h.running hc hy hg).2, by rw [e, e']; exact hsit (h.on hc)⟩ (by rw [e]; exact hprio) rfl
    (fun h => by simp [h] at hg) ?_ ?_ ?_ ?_ ?_ ?_ <;> rw [e'] <;> (try rw [e]) <;> (try rw [hch])
  · simp [hp]
  · exact fun _ => hne
  · rintro rfl
    simp [Pc.pushed] at hp
  · rintro j rfl
    simp [Pc.pushed] at hp
  · exact fun _ => ⟨hin, hne⟩
  · rintro _ rfl
    simp [Pc.pushed] at hp

/-! ## `sched_wait_thread` -/

theorem Core.lt_created (h : s.Core act) (hp : s.pc t ≠ .exited) : t < s.created := by
  by_contra hlt
  exact hp ((h.good t).fresh (by omega)).1

theorem Core.waitDead (h : s.Core act) (hc : act c = some t) (hp : s.pc t = .waitDead x) :
    (s.waitDead t x).Core act := by
  have hidle := h.notIdle (t := t) (by rw [hp]; simp)
  have hy : (s.pc t).yields = false := by rw [hp]; rfl
  have hg : (s.pc t).gone = false := by rw [hp]; rfl
  unfold Sched.waitDead
  split_ifs
  · exact (h.returns _).goto_running hc hidle hy hg rfl
  · exact h.goto_running hc hidle hy hg rfl

theorem Core.waitZombie (h : s.Core act) (hc : act c = some t) (hp : s.pc t = .waitZombie x) :
    (s.waitZombie t x).Core act := by
  have hidle := h.notIdle (t := t) (by rw [hp]; simp)
  have hy : (s.pc t).yields = false := by rw [hp]; rfl
  have hg : (s.pc t).gone = false := by rw [hp]; rfl
  unfold Sched.waitZombie
  split_ifs
  · exact h.goto_running hc hidle hy hg rfl
  · exact h.goto_running hc hidle hy hg rfl

/-- The target is marked dead; it was past its own store. -/
theorem Core.setDead (h : s.Core act) (hg : (s.pc x).gone = true) :
    (s.setState x .dead).Core act := by
  have e : (s.setState x .dead).thread x = { s.thread x with state := .dead } :=
    Function.update_self _ _ _
  have hx := h.good x
  refine h.of_same ⟨rfl, rfl, rfl, fun _ h => h⟩ (fun y hy => .setState .dead hy) (by rw [e])
    ⟨?_, by rw [e]; exact hx.prio, hx.node, hx.zombies, by rw [e]; exact hx.children,
      by rw [e]; exact hx.emptied, by rw [e]; exact hx.found, by rw [e]; exact hx.init,
      fun c hc hi => ?_, hx.fresh, by unfold On; rw [e]; exact hx.stays⟩
  · obtain ⟨loc, hl, hsit⟩ := hx.place
    have hst := h.gone_iff.1 hg
    refine ⟨loc, hl, ?_⟩
    cases hsit with
    | running h1 | ready h1 | drowsy h1 | sleeping h1 | waiting _ h1 | joining h1 => simp [h1] at hst
    | gone h1 h2 => exact .gone (.inr (by rw [e])) h2
    | zombie h1 h2 => exact .zombie (.inr (by rw [e])) h2
  · have hr := (hx.idle c hc hi).1
    rw [hr] at hg
    simp [Pc.gone] at hg

theorem Core.waitMarkDead (h : s.Core act) (hc : act c = some t) (hp : s.pc t = .waitMarkDead x)
    (hg : (s.pc x).gone = true) : (s.waitMarkDead t x).Core act := by
  refine (h.setDead hg).goto_running hc ?_ ?_ ?_ rfl
  · exact h.notIdle (by rw [hp]; simp)
  · show (s.pc t).yields = false
    rw [hp]
    rfl
  · show (s.pc t).gone = false
    rw [hp]
    rfl

theorem Core.waitJoining (h : s.Core act) (hc : act c = some t) (hp : s.pc t = .waitJoining x) :
    (s.waitJoining t x).Core act :=
  h.shift hc (h.notIdle (by rw [hp]; simp)) (by rw [hp]; rfl) (by rw [hp]; rfl) rfl rfl
    (h.good t).prio (fun _ => .joining rfl rfl fun _ => rfl) rfl rfl

/-- The record of a joiner on a target that is not between its search and its wake up. -/
theorem Core.record (h : s.Core act) {j : Option ℕ} (hw : ∀ i, s.pc x ≠ .exitWake (some i)) :
    (s.setThread x fun T => { T with joiningThread := j }).Core act := by
  have e : (s.setThread x fun T => { T with joiningThread := j }).thread x
      = { s.thread x with joiningThread := j } := Function.update_self _ _ _
  have hx := h.good x
  refine h.of_same ⟨rfl, rfl, rfl, fun _ h => h⟩ (fun y hy => .setThread _ hy) (by rw [e])
    ⟨?_, by rw [e]; exact hx.prio, hx.node, hx.zombies, by rw [e]; exact hx.children,
      by rw [e]; exact hx.emptied, fun i hi => absurd hi (hw i), by rw [e]; exact hx.init,
      by rw [e]; exact hx.idle, hx.fresh, by unfold On; rw [e]; exact hx.stays⟩
  obtain ⟨loc, hl, hsit⟩ := hx.place
  refine ⟨loc, hl, ?_⟩
  unfold On
  rw [e]
  exact hsit.congr rfl rfl rfl rfl

theorem Core.waitRecord (h : s.Core act) (hp : s.pc t = .waitRecord x)
    (hw : ∀ i, s.pc x ≠ .exitWake (some i)) : (s.waitRecord t x).Core act := by
  have h' := h.record (j := some t) hw
  refine h'.goto (h'.lt_created ?_) (h'.notIdle ?_) (fun loc hsit => ?_) (fun hg => ?_)
    (by simp [Pc.pushed]) ?_ (by simp) (by simp) (fun _ => rfl) (by simp)
  · show s.pc t ≠ _
    simp [hp]
  · show s.pc t ≠ _
    simp [hp]
  · have hp' : (s.setThread x fun T => { T with joiningThread := some t }).pc t = .waitRecord x := hp
    rw [hp'] at hsit
    cases hsit with
    | running h1 h2 h3 => exact .running h1 h2 rfl
    | ready h1 h2 h3 => exact .ready h1 rfl fun _ => rfl
    | drowsy _ _ h3 => cases h3
    | sleeping _ _ h3 => cases h3
    | waiting _ _ h3 => cases h3
    | joining h1 h2 h3 => exact .joining h1 rfl fun _ => rfl
    | gone _ h2 => cases h2
    | zombie _ h2 => cases h2
  · have hg' : (s.pc t).gone = true := hg
    simp [hp, Pc.gone] at hg'
  · intro _
    show (s.pc t).deleted = false
    rw [hp]
    rfl

/-- A queue of children, where none is about to be deleted. -/
theorem Core.setChildren (h : s.Core act) (l : List ℕ) (hp : s.pc x ≠ .exitDelete) :
    (s.setThread x fun T => { T with children := some l }).Core act := by
  have e : (s.setThread x fun T => { T with children := some l }).thread x
      = { s.thread x with children := some l } := Function.update_self _ _ _
  have hx := h.good x
  refine h.of_same ⟨rfl, rfl, rfl, fun _ h => h⟩ (fun y hy => .setThread _ hy) (by rw [e])
    ⟨?_, by rw [e]; exact hx.prio, hx.node, hx.zombies, by rw [e]; simp, fun hd => absurd hd hp,
      by rw [e]; exact hx.found, fun hi => ⟨(hx.init hi).1, by rw [e]; simp⟩,
      by rw [e]; exact hx.idle, hx.fresh, by unfold On; rw [e]; exact hx.stays⟩
  obtain ⟨loc, hl, hsit⟩ := hx.place
  refine ⟨loc, hl, ?_⟩
  unfold On
  rw [e]
  exact hsit.congr rfl rfl rfl rfl

/-- The node found in the zombie table is the target's own. -/
theorem Core.removeZombie (h : s.Core act) (x : ℕ) :
    Core { s.removeData .zombie x with freed := Function.update s.freed x true } act := by
  have hdata : ∀ n, (s.node n).data = some x → n = x := by
    intro n hn
    rcases (h.good n).node with h1 | ⟨h1, -⟩
    · rw [h1] at hn
      exact Option.some_inj.1 hn
    · simp [h1] at hn
  set l := (s.table .zombie).eraseP fun n => (s.node n).data = some x with hl
  -- the queue without the node, or as it was
  have hcases : (s.table .zombie).Perm (x :: l) ∨ l = s.table .zombie := by
    by_cases hm : ∃ n ∈ s.table .zombie, (s.node n).data = some x
    · obtain ⟨n, hn, hd⟩ := hm
      have hd' : decide ((s.node n).data = some x) = true := by simpa using hd
      obtain ⟨y, l₁, l₂, -, hy, h1, h2⟩ := List.exists_of_eraseP
        (p := fun n => decide ((s.node n).data = some x)) hn hd'
      obtain rfl := hdata y (of_decide_eq_true hy)
      left
      rw [hl, h2, h1]
      exact List.perm_middle
    · right
      refine List.eraseP_of_forall_not fun n hn hd => hm ⟨n, hn, by simpa using hd⟩
  have hloc : ∀ y, y ≠ x → ∀ loc, Located s.table y loc →
      Located (Function.update s.table .zombie l) y loc := by
    intro y hy loc hloc
    rcases hcases with hc | hc
    · exact hloc.remove_other hy hc
    · exact hloc.of_count (by rw [hc])
  have hx := h.good x
  have hplace : ∃ loc, Located (Function.update s.table .zombie l) x loc
      ∧ Sit (s.thread x) (s.pc x) (s.On act x) loc := by
    obtain ⟨loc, hloc, hsit⟩ := hx.place
    rcases hcases with hc | hc
    · obtain rfl : loc = some .zombie := hloc.eq_of_mem (hc.mem_iff.2 List.mem_cons_self)
      cases hsit with
      | zombie h1 h2 => exact ⟨none, hloc.remove_self hc, .gone h1 (Pc.gone_of_pushed h2)⟩
    · exact ⟨loc, hloc.of_count (by rw [hc]), hsit⟩
  refine h.of_same (t := x) ⟨rfl, rfl, rfl, fun _ h => h⟩ (fun y hy => ?_) rfl
    ⟨hplace, hx.prio, hx.node, ?_, hx.children, hx.emptied, hx.found, hx.init, hx.idle, fun hc => ?_,
      hx.stays⟩
  · exact ⟨rfl, rfl, rfl, rfl, rfl, rfl, rfl, rfl, Function.update_of_ne hy _ _, hloc y hy⟩
  · intro _ _ _ hf
    simp [Function.update_self] at hf
  · refine ⟨(hx.fresh hc).1, ?_⟩
    obtain ⟨loc, hloc, -⟩ := hplace
    rcases hcases with hc' | hc'
    · exact absurd (hc'.mem_iff.2 List.mem_cons_self) ((hx.fresh hc).2.not_mem _)
    · exact (hx.fresh hc).2.of_count (congrArg (List.count x) hc')

/-- `sched_clean_joined_thread` does not panic. -/
theorem Core.cleanJoinedThread (h : s.Core act) (hlt : t < s.created)
    (hd : (s.pc t).deleted = false) (hp : s.pc t ≠ .exitDelete) :
    ∃ s', s.cleanJoinedThread t x = .ok s' ∧ s'.Core act ∧ Still s s' ∧ s'.pc = s.pc := by
  obtain ⟨l, hl⟩ := Option.ne_none_iff_exists'.1 ((h.good t).children hlt hd)
  unfold Sched.cleanJoinedThread
  rw [hl]
  refine ⟨_, rfl, ?_, ⟨rfl, rfl, rfl, fun _ h => h⟩, rfl⟩
  exact ((h.setChildren (l.erase x) hp).removeZombie x).of_all_same ⟨rfl, rfl, rfl, fun _ h => h⟩
    fun y => ⟨rfl, rfl, rfl, rfl, rfl, rfl, rfl, rfl, rfl, fun _ h => h⟩

/-- Either end of `sched_wait_thread`. -/
theorem Core.cleaned (h : s.Core act) (hc : act c = some t) (hy : (s.pc t).yields = false)
    (hg : (s.pc t).gone = false) (hr : s.pc t ≠ .run) (r : CallRet) :
    ∃ s', (s.cleanJoinedThread t x).map (fun s' => (s'.returns t r).goto t .run) = .ok s'
      ∧ s'.Core act := by
  obtain ⟨s', hs', hcore, hstill, hpc⟩ := h.cleanJoinedThread (x := x) (h.active c t hc).2
    (Pc.deleted_of_not_gone hg) (by rintro hq; simp [hq, Pc.gone] at hg)
  rw [hs']
  refine ⟨_, rfl, (hcore.returns r).goto_running hc ?_ ?_ ?_ rfl⟩
  · exact fun c hc hi => h.notIdle hr c (hstill.active c hc) (by rwa [← hstill.idle])
  · show (s'.pc t).yields = false
    rwa [hpc]
  · show (s'.pc t).gone = false
    rwa [hpc]

/-! ## `thread_exit` -/

theorem Core.exitZombie (h : s.Core act) (hc : act c = some t) (hp : s.pc t = .exitZombie) :
    (s.exitZombie t).Core act :=
  h.shift hc (h.notIdle (by rw [hp]; simp)) (by rw [hp]; rfl) (by rw [hp]; rfl) rfl rfl
    (h.good t).prio (fun _ => .gone (.inl rfl) rfl) rfl rfl

theorem Core.exitTestInit (h : s.Core act) (hc : act c = some t) (hp : s.pc t = .exitTestInit) :
    (s.exitTestInit t).Core act := by
  have hg : (s.pc t).gone = true := by rw [hp]; rfl
  have hlt := (h.active c t hc).2
  unfold Sched.exitTestInit
  split_ifs with hi
  · exact h.goto_gone hlt hg rfl (fun _ => rfl) (fun _ hi' => absurd hi hi') (by simp [Pc.deleted])
      (by simp) (by simp) (fun _ => rfl) (by simp)
  · exact h.goto_gone hlt hg rfl (by simp [hp, Pc.pushed]) (by simp [Pc.pushed])
      (by simp [hp, Pc.deleted]) (by simp) (by simp) (fun hi' => absurd hi' hi) (by simp)

theorem Core.exitEnter (h : s.Core act) (hc : act c = some t) (hp : s.pc t = .exitEnter) :
    (s.goto t .exitPush).Core act := by
  have hinner := fun hi => ((h.good t).init hi).1
  rw [hp] at hinner
  exact h.goto_gone (h.active c t hc).2 (by rw [hp]; rfl) rfl (by simp [hp, Pc.pushed])
    (by simp [Pc.pushed]) (by simp [hp, Pc.deleted]) (by simp) (by simp) hinner (by simp)

theorem Core.exitPush (h : s.Core act) (hc : act c = some t) (hp : s.pc t = .exitPush) :
    (s.exitPush t).Core act := by
  have e : (s.exitPush t).pc t = .exitChildren := Function.update_self _ _ _
  have hlt := (h.active c t hc).2
  obtain ⟨loc, hl, hsit⟩ := (h.good t).place
  have hinner := fun hi => ((h.good t).init hi).1
  have hst := (h.gone_iff (t := t)).1 (by rw [hp]; rfl)
  obtain rfl : loc = none := by
    rw [hp] at hsit
    cases hsit with
    | running _ | drowsy _ | joining _ | gone _ => rfl
    | ready h1 | sleeping h1 | waiting _ h1 => simp [h1] at hst
    | zombie _ h2 => cases h2
  have hl' : Located (s.exitPush t).table t (some .zombie) := Located.push hl
  rw [hp] at hinner
  refine h.change hlt (h.notIdle (by rw [hp]; simp)) ⟨rfl, rfl, rfl, fun _ h => h⟩
    (fun x hx => (Same.push _ hx).trans (.goto _ hx)) rfl ⟨_, hl', ?_⟩ (h.good t).prio rfl ?_ ?_ ?_ ?_
    ?_ ?_ ?_ <;> rw [e]
  · exact .zombie hst rfl
  · exact fun _ => rfl
  · exact fun _ _ _ => hl'.mem_iff.2 rfl
  · exact fun _ => (h.good t).children hlt (by rw [hp]; rfl)
  · simp
  · simp
  · exact fun hi => by simpa [Pc.inner] using hinner hi
  · simp

/-- A child `x`, the last of `l`, handed over from `t` to init. -/
structure Adopts (s s' : Sched) (t x : ℕ) (l : List ℕ) : Prop where
  from_ : (s.thread t).children = some l
  last : l.getLast? = some x
  left : t ≠ s.initThread → (s'.thread t).children = some l.dropLast
  others : ∀ y, y ≠ t → y ≠ s.initThread → (s'.thread y).children = (s.thread y).children
  heir : t ≠ s.initThread → ∃ k, (s.thread s.initThread).children = some k
    ∧ (s'.thread s.initThread).children = some (x :: k)
  ptid : (s'.thread x).ptid = (s.thread s.initThread).tid
  ptids : ∀ y, y ≠ x → (s'.thread y).ptid = (s.thread y).ptid
  tid : ∀ y, (s'.thread y).tid = (s.thread y).tid
  state : ∀ y, (s'.thread y).state = (s.thread y).state
  joining : ∀ y, (s'.thread y).joiningThread = (s.thread y).joiningThread
  affinity : ∀ y, (s'.thread y).cpuAffinity = (s.thread y).cpuAffinity
  pc : s'.pc = s.pc
  active : s'.activeThread = s.activeThread
  created : s'.created = s.created
  freed : s'.freed = s.freed
  init : s'.initThread = s.initThread
  creator : s'.creator = s.creator
  zombie : s'.table .zombie = s.table .zombie

/-- What a round of the loop over the children is. -/
theorem exitChildren_cases (h : s.exitChildren t = .ok s') :
    ((s.thread t).children = some [] ∧ s' = s.goto t .exitDelete)
      ∨ ∃ x l, Adopts s s' t x l := by
  unfold Sched.exitChildren at h
  split at h
  · cases h
  rename_i l hl
  split at h
  · rename_i hlast
    rw [List.getLast?_eq_none_iff] at hlast
    subst hlast
    cases h
    exact .inl ⟨hl, rfl⟩
  rename_i x hlast
  unfold adopt at h
  simp only [] at h
  split at h
  · cases h
  rename_i j hj
  split at h
  · cases h
  rename_i k hk
  cases h
  refine .inr ⟨x, l, ?_⟩
  set s₁ := s.setThread t fun T => { T with children := some l.dropLast } with hs₁
  set s₂ := s₁.setThread x fun T => { T with ptid := (s₁.thread s₁.initThread).tid } with hs₂
  set s₃ := if (s₂.node j).data = some t then s₂.setNode j fun n => { n with data := none } else s₂
    with hs₃
  -- the node whose data is cleared is no field of a thread
  obtain ⟨e1, e2, e3, e4, e5, e6, e7, e8⟩ : s₃.thread = s₂.thread ∧ s₃.pc = s.pc
      ∧ s₃.activeThread = s.activeThread ∧ s₃.created = s.created ∧ s₃.freed = s.freed
      ∧ s₃.initThread = s.initThread ∧ s₃.creator = s.creator ∧ s₃.table = s.table := by
    rw [hs₃]
    split_ifs <;> exact ⟨rfl, rfl, rfl, rfl, rfl, rfl, rfl, rfl⟩
  rw [e6, e1] at hk
  rw [e6]
  have hproj : ∀ {β : Type} (g : Thread → β), (∀ T l, g { T with children := l } = g T) →
      (∀ T p, g { T with ptid := p } = g T) → ∀ y, g ((s₃.setThread s.initThread fun T =>
        { T with children := some (x :: k) }).thread y) = g (s.thread y) := by
    intro β g hg hg' y
    rw [setThread_proj g fun T => hg T _, e1, setThread_proj g fun T => hg' T _,
      setThread_proj g fun T => hg T _]
  have hch : ∀ y, (s₂.thread y).children = (s₁.thread y).children := by
    intro y
    exact setThread_proj Thread.children (by intro T; rfl) y
  refine ⟨hl, hlast, fun hi => ?_, fun y h1 h2 => ?_, fun hi => ⟨k, ?_, ?_⟩, ?_, fun y hy => ?_,
    hproj _ (fun _ _ => rfl) fun _ _ => rfl, hproj _ (fun _ _ => rfl) fun _ _ => rfl,
    hproj _ (fun _ _ => rfl) fun _ _ => rfl, hproj _ (fun _ _ => rfl) fun _ _ => rfl, e2, e3, e4, e5,
    e6, e7, by rw [← e8]; rfl⟩
  · rw [setThread_of_ne hi, e1, hch, hs₁, setThread_self]
  · rw [setThread_of_ne h2, e1, hch, hs₁, setThread_of_ne h1]
  · rw [← hk, hch, hs₁, setThread_of_ne (Ne.symm hi)]
  · rw [setThread_self]
  · refine (setThread_proj Thread.ptid (by intro T; rfl) x).trans ?_
    rw [e1, hs₂, setThread_self]
    exact setThread_proj Thread.tid (by intro T; rfl) _
  · refine (setThread_proj Thread.ptid (by intro T; rfl) y).trans ?_
    rw [e1, hs₂, setThread_of_ne hy]
    exact setThread_proj Thread.ptid (by intro T; rfl) y

/-- A round of the loop over the children panics nowhere; the children left are fewer. -/
theorem Core.exitChildren (h : s.Core act) (hc : act c = some t) (hp : s.pc t = .exitChildren) :
    s.exitChildren t = .error .nullDeref ∨ ∃ s', s.exitChildren t = .ok s' ∧ s'.Core act := by
  have hlt := (h.active c t hc).2
  obtain ⟨l, hl⟩ := Option.ne_none_iff_exists'.1
    ((h.good t).children hlt (by rw [hp]; rfl))
  have hinner := fun hi => ((h.good t).init hi).1
  rw [hp] at hinner
  unfold Sched.exitChildren
  rw [hl]
  simp only []
  rcases hlast : l.getLast? with _ | x
  · refine .inr ⟨_, rfl, ?_⟩
    rw [List.getLast?_eq_none_iff] at hlast
    subst hlast
    exact h.goto_gone hlt (by rw [hp]; rfl) rfl (fun _ => rfl) (fun _ _ => by rw [hp]; rfl)
      (fun _ => by rw [hp]; rfl) (fun _ => hl) (by simp) (fun hi => by simpa [Pc.inner] using hinner hi)
      (by simp)
  · simp only []
    set s₁ := s.setThread t fun T => { T with children := some l.dropLast } with hs₁
    have h₁ : s₁.Core act := h.setChildren l.dropLast (by rw [hp]; simp)
    unfold adopt
    set s₂ := s₁.setThread x fun T => { T with ptid := (s₁.thread s₁.initThread).tid } with hs₂
    have h₂ : s₂.Core act := h₁.setThread fun T => ⟨rfl, rfl, rfl, rfl, rfl, rfl⟩
    simp only []
    rcases hj : (s₂.thread x).joiningThread with _ | j
    · exact .inl rfl
    · simp only []
      set s₃ := if (s₂.node j).data = some t then s₂.setNode j fun n => { n with data := none }
        else s₂ with hs₃
      have h₃ : s₃.Core act ∧ s₃.pc = s.pc ∧ s₃.initThread = s.initThread := by
        rw [hs₃]
        split_ifs with hd
        · refine ⟨?_, rfl, rfl⟩
          -- only the exiting thread's own node holds it
          obtain rfl : j = t := by
            rcases (h₂.good j).node with h1 | ⟨h1, -⟩
            · rw [h1] at hd
              exact Option.some_inj.1 hd
            · simp [h1] at hd
          have hgj := h₂.good j
          have e : ((s₂.setNode j fun n => { n with data := none }).node j).data = none := by
            simp [setNode]
          refine h₂.of_same (t := j) ⟨rfl, rfl, rfl, fun _ h => h⟩ (fun y hy => ?_) rfl
            ⟨hgj.place, hgj.prio, .inr ⟨e, ?_⟩, hgj.zombies, hgj.children, hgj.emptied, hgj.found,
              hgj.init, hgj.idle, hgj.fresh, hgj.stays⟩
          · refine ⟨rfl, rfl, rfl, rfl, rfl, rfl, rfl, ?_, rfl, fun _ h => h⟩
            simp [setNode, Function.update_of_ne hy]
          · show (s.pc j).gone = true
            rw [hp]
            rfl
        · exact ⟨h₂, rfl, rfl⟩
      have hinit := ((h₃.1.good s₃.initThread).init rfl)
      obtain ⟨k, hk⟩ := Option.ne_none_iff_exists'.1 hinit.2
      rw [hk]
      refine .inr ⟨_, rfl, h₃.1.setChildren _ fun he => ?_⟩
      simp [he, Pc.inner] at hinit

theorem Core.exitDelete (h : s.Core act) (hc : act c = some t) (hp : s.pc t = .exitDelete) :
    ∃ s', s.exitDelete t = .ok s' ∧ s'.Core act ∧ s'.pc t = .exitSearch
      ∧ s'.activeThread = s.activeThread := by
  have hlt := (h.active c t hc).2
  have hinner := fun hi => ((h.good t).init hi).1
  rw [hp] at hinner
  unfold Sched.exitDelete
  rw [if_pos ((h.good t).emptied hp)]
  have e : ((s.setThread t fun T => { T with children := none }).goto t .exitSearch).thread t
      = { s.thread t with children := none } := Function.update_self _ _ _
  have e' : ((s.setThread t fun T => { T with children := none }).goto t .exitSearch).pc t
      = .exitSearch := Function.update_self _ _ _
  refine ⟨_, rfl, ?_, e', rfl⟩
  obtain ⟨loc, hl, hsit⟩ := (h.good t).place
  refine h.change hlt (h.notIdle (by rw [hp]; simp)) ⟨rfl, rfl, rfl, fun _ h => h⟩
    (fun x hx => (Same.setThread _ hx).trans (.goto _ hx)) (by rw [e]) ⟨loc, hl, ?_⟩
    (by rw [e]; exact (h.good t).prio) rfl ?_ ?_ ?_ ?_ ?_ ?_ ?_ <;> rw [e']
  · rw [e]
    have hst := (h.gone_iff (t := t)).1 (by rw [hp]; rfl)
    cases hsit with
    | running h1 | ready h1 | drowsy h1 | sleeping h1 | waiting _ h1 | joining h1 => simp [h1] at hst
    | gone h1 h2 => exact .gone h1 rfl
    | zombie h1 h2 => exact .zombie h1 rfl
  · exact fun _ => rfl
  · exact fun _ hi hf => (h.good t).zombies hlt (by rw [hp]; rfl) hi hf
  · simp [Pc.deleted]
  · simp
  · simp
  · exact fun hi => absurd (hinner hi) (by simp [Pc.inner])
  · simp

theorem Core.exitSearch (h : s.Core act) (hc : act c = some t) (hp : s.pc t = .exitSearch) :
    (s.exitSearch t).Core act := by
  have hinner := fun hi => ((h.good t).init hi).1
  rw [hp] at hinner
  refine h.goto_gone (h.active c t hc).2 (by rw [hp]; rfl) rfl (fun _ => rfl)
    (fun _ _ => by rw [hp]; rfl) (by simp [Pc.deleted]) (by simp) (fun j hj => ?_)
    (fun hi => by simpa [Pc.inner] using hinner hi) (by simp)
  obtain ⟨i, hi, hd⟩ := Option.bind_eq_some_iff.1 (Pc.exitWake.inj hj)
  rcases (h.good i).node with h1 | ⟨h1, -⟩
  · rw [h1] at hd
    rw [hi, Option.some_inj.1 hd]
  · simp [h1] at hd

/-- The joiner made ready goes to its own table: it was joining, so its node was linked nowhere. -/
theorem Core.ready_joining (h : s.Core act) (hj : (s.thread t).state = .joining) :
    ((s.setState t .ready).push (.active (s.thread t).cpuAffinity (s.thread t).priority) t).Core
      act := by
  set s' := (s.setState t .ready).push (.active (s.thread t).cpuAffinity (s.thread t).priority) t
    with hs'
  have e : s'.thread t = { s.thread t with state := .ready } := Function.update_self _ _ _
  have hgt := h.good t
  obtain ⟨loc, hl, hsit⟩ := hgt.place
  cases hsit with
  | running h1 | ready h1 | drowsy h1 | sleeping h1 | waiting _ h1 => simp [h1] at hj
  | gone h1 | zombie h1 => simp [hj] at h1
  | joining _ h2 h3 =>
    have hr : s.pc t ≠ .run := by
      intro hr
      simp [hr, Pc.joins] at h2
    have hg := Pc.not_gone_of_joins h2
    have hlt := h.lt_created (t := t) (by intro hq; simp [hq, Pc.gone] at hg)
    have hl' : Located (s.setState t .ready).table t none := hl
    refine h.change hlt (h.notIdle hr) ⟨rfl, rfl, rfl, fun _ h => h⟩
      (fun x hx => (Same.setState _ hx).trans (.push _ hx)) (by rw [e])
      ⟨_, Located.push hl', ?_⟩ (by rw [e]; exact hgt.prio) rfl id ?_ (by rw [e]; exact hgt.children hlt)
      (by rw [e]; exact hgt.emptied) (by rw [e]; exact hgt.found) (by rw [e]; exact hgt.init)
      hgt.stays
    · rw [e]
      exact .ready rfl hg h3
    · intro hp
      have hp' : (s.pc t).pushed = true := hp
      simp [Pc.gone_of_pushed hp'] at hg

theorem Core.exitWake (h : s.Core act) (hc : act c = some t) {j : Option ℕ}
    (hp : s.pc t = .exitWake j) :
    ∃ s', s.exitWake t j = .ok s' ∧ s'.Core act ∧ s'.pc t = .exitLeave
      ∧ s'.activeThread = s.activeThread := by
  have hlt := (h.active c t hc).2
  have hinner := fun hi => ((h.good t).init hi).1
  rw [hp] at hinner
  have hleave : ∀ {s' : Sched}, s'.Core act → s'.pc t = s.pc t → s'.created = s.created →
      s'.initThread = s.initThread → (s'.goto t .exitLeave).Core act := by
    intro s' h' hpc hcr hi
    refine h'.goto_gone (by rwa [hcr]) (by rw [hpc, hp]; rfl) rfl (fun _ => rfl)
      (fun _ _ => by rw [hpc, hp]; rfl) (by simp [Pc.deleted]) (by simp) (by simp) (fun hi' => ?_)
      (by simp)
    rw [hi] at hi'
    simpa [Pc.inner] using hinner hi'
  rcases j with _ | j
  · exact ⟨_, rfl, hleave h rfl rfl rfl, Function.update_self _ _ _, rfl⟩
  · simp only [Sched.exitWake]
    split_ifs with hj
    · rw [(h.good t).found j hp]
      exact ⟨_, rfl, hleave (h.ready_joining hj) rfl rfl rfl, Function.update_self _ _ _, rfl⟩
    · exact ⟨_, rfl, hleave h rfl rfl rfl, Function.update_self _ _ _, rfl⟩

theorem Core.exitLeave (h : s.Core act) (hc : act c = some t) (hp : s.pc t = .exitLeave) :
    (s.goto t .exitSched).Core act :=
  h.goto_gone (h.active c t hc).2 (by rw [hp]; rfl) rfl (fun _ => rfl) (fun _ _ => by rw [hp]; rfl)
    (by simp [Pc.deleted]) (by simp) (by simp) (fun _ => rfl) (by simp)

end Sched

end RTLKIM

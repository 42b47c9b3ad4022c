import RTLKIM.JoinProtocol
import RTLKIM.Lib.Place

/-!
# Where a thread's node is

`Sit` lists the situations a thread can be in: its state, the statement it is at, whether it is the
active thread of its CPU, and the table its node is linked in. `Core` says every thread is in one of
them. Its second argument is the active thread of each CPU, so that `select_thread` can be followed
while it has none. A step changes one thread or two, and the others stay as they are (`Same`).
-/

namespace RTLKIM

namespace Pc

/-- Past the push on the zombie table. -/
def pushed : Pc → Bool
  | .exitChildren | .exitDelete | .exitSearch | .exitWake _ | .exitLeave | .exitSched
  | .exited => true
  | _ => false

/-- Past the deletion of the children's queue. -/
def deleted : Pc → Bool
  | .exitSearch | .exitWake _ | .exitLeave | .exitSched | .exited => true
  | _ => false

/-- Where a thread may be made ready before it has switched away. -/
def yields : Pc → Bool
  | .sched | .waitRecord _ | .waitSched _ => true
  | _ => false

/-- At the `sched_schedule` of a call that has parked the thread, or past it. -/
def parks : Pc → Bool
  | .run | .sched => true
  | _ => false

/-- Past the store of `THREAD_STATE_JOINING`. -/
def joins : Pc → Bool
  | .waitRecord _ | .waitSched _ | .waitResumed _ => true
  | _ => false

/-- In the part of `thread_exit` that init does not go through. -/
def inner : Pc → Bool
  | .exitEnter | .exitPush | .exitChildren | .exitDelete | .exitSearch | .exitWake _
  | .exitLeave => true
  | _ => false

variable {p : Pc}

theorem gone_of_pushed (h : p.pushed = true) : p.gone = true := by
  cases p <;> simp_all [gone, pushed]

theorem pushed_of_not_gone (h : p.gone = false) : p.pushed = false := by
  cases p <;> simp_all [gone, pushed]

theorem deleted_of_not_gone (h : p.gone = false) : p.deleted = false := by
  cases p <;> simp_all [gone, deleted]

theorem inner_of_not_gone (h : p.gone = false) : p.inner = false := by
  cases p <;> simp_all [gone, inner]

theorem not_gone_of_parks (h : p.parks = true) : p.gone = false := by
  cases p <;> simp_all [gone, parks]

theorem not_gone_of_joins (h : p.joins = true) : p.gone = false := by
  cases p <;> simp_all [gone, joins]

end Pc

/-- The situations of a thread at `p`, active on its CPU or not, by the table of its node. -/
inductive Sit (T : Thread) (p : Pc) (on : Prop) : Option Table → Prop
  | running (hs : T.state = .running) (ho : on) (hp : p.gone = false) : Sit T p on none
  | ready (hs : T.state = .ready) (hp : p.gone = false) (ho : on → p.yields = true) :
      Sit T p on (some (.active T.cpuAffinity T.priority))
  | drowsy (hs : T.state = .sleeping) (ho : on) (hp : p = .sched) : Sit T p on none
  | sleeping (hs : T.state = .sleeping) (ho : ¬ on) (hp : p.parks = true) :
      Sit T p on (some (.sleeping T.cpuAffinity))
  | waiting (object : ℕ) (hs : T.state = .waiting) (hp : p.parks = true)
      (ho : on → p.yields = true) : Sit T p on (some (.waiting T.blockType object))
  | joining (hs : T.state = .joining) (hp : p.joins = true) (ho : on → p.yields = true) :
      Sit T p on none
  | gone (hs : T.state = .zombie ∨ T.state = .dead) (hp : p.gone = true) : Sit T p on none
  | zombie (hs : T.state = .zombie ∨ T.state = .dead) (hp : p.pushed = true) :
      Sit T p on (some .zombie)

theorem Sit.congr {T T' : Thread} {p : Pc} {on : Prop} {loc : Option Table} (h : Sit T p on loc)
    (hs : T'.state = T.state) (ha : T'.cpuAffinity = T.cpuAffinity) (hp : T'.priority = T.priority)
    (hb : T'.blockType = T.blockType) : Sit T' p on loc := by
  cases h with
  | running h1 h2 h3 => exact .running (hs.trans h1) h2 h3
  | ready h1 h2 h3 =>
    rw [← ha, ← hp]
    exact .ready (hs.trans h1) h2 h3
  | drowsy h1 h2 h3 => exact .drowsy (hs.trans h1) h2 h3
  | sleeping h1 h2 h3 =>
    rw [← ha]
    exact .sleeping (hs.trans h1) h2 h3
  | waiting o h1 h2 h3 =>
    rw [← hb]
    exact .waiting o (hs.trans h1) h2 h3
  | joining h1 h2 h3 => exact .joining (hs.trans h1) h2 h3
  | gone h1 h2 => exact .gone (by rwa [hs]) h2
  | zombie h1 h2 => exact .zombie (by rwa [hs]) h2

namespace Sched

variable {s s' s'' : Sched} {act act' : ℕ → Option ℕ} {t x c : ℕ} {loc : Option Table}

/-- The thread is the active one of its CPU. -/
def On (s : Sched) (act : ℕ → Option ℕ) (t : ℕ) : Prop := act (s.thread t).cpuAffinity = some t

/-- What holds of each thread. -/
structure Good (s : Sched) (act : ℕ → Option ℕ) (t : ℕ) : Prop where
  place : ∃ loc, Located s.table t loc ∧ Sit (s.thread t) (s.pc t) (s.On act t) loc
  prio : (s.thread t).priority ≤ kernelLowestPriority
  node : (s.node t).data = some t ∨ (s.node t).data = none ∧ (s.pc t).gone = true
  zombies : t < s.created → (s.pc t).pushed = true → t ≠ s.initThread → s.freed t = false →
    t ∈ s.table .zombie
  children : t < s.created → (s.pc t).deleted = false → (s.thread t).children ≠ none
  emptied : s.pc t = .exitDelete → (s.thread t).children = some []
  found : ∀ j, s.pc t = .exitWake (some j) → (s.thread t).joiningThread = some j
  init : t = s.initThread → (s.pc t).inner = false ∧ (s.thread t).children ≠ none
  idle : ∀ c, s.activeThread c ≠ none → s.idleThread c = t →
    s.pc t = .run ∧ (s.thread t).cpuAffinity = c ∧ t < s.created
      ∧ ((s.thread t).state = .running ∨ (s.thread t).state = .ready)
  fresh : s.created ≤ t → s.pc t = .exited ∧ Located s.table t none
  stays : s.On act t → s.pc t ≠ .exited

structure Core (s : Sched) (act : ℕ → Option ℕ) : Prop where
  good : ∀ t, s.Good act t
  active : ∀ c t, act c = some t → (s.thread t).cpuAffinity = c ∧ t < s.created
  init : s.initThread < s.created

/-- The step leaves `x` as it is, but for fields that `Good` does not read. -/
structure Same (s s' : Sched) (x : ℕ) : Prop where
  state : (s'.thread x).state = (s.thread x).state
  affinity : (s'.thread x).cpuAffinity = (s.thread x).cpuAffinity
  priority : (s'.thread x).priority = (s.thread x).priority
  block : (s'.thread x).blockType = (s.thread x).blockType
  children : (s'.thread x).children = (s.thread x).children
  joining : (s'.thread x).joiningThread = (s.thread x).joiningThread
  pc : s'.pc x = s.pc x
  node : (s'.node x).data = (s.node x).data
  freed : s'.freed x = s.freed x
  located : ∀ loc, Located s.table x loc → Located s'.table x loc

/-- The step does not create `x`, or make it init or an idle thread. -/
structure StillAt (s s' : Sched) (x : ℕ) : Prop where
  created : x < s'.created ↔ x < s.created
  init : x = s'.initThread ↔ x = s.initThread
  idle : ∀ c, s'.activeThread c ≠ none → s'.idleThread c = x →
    s.activeThread c ≠ none ∧ s.idleThread c = x

/-- The step creates no thread and starts no CPU. -/
structure Still (s s' : Sched) : Prop where
  created : s'.created = s.created
  init : s'.initThread = s.initThread
  idle : s'.idleThread = s.idleThread
  active : ∀ c, s'.activeThread c ≠ none → s.activeThread c ≠ none

theorem Still.refl (s : Sched) : Still s s := ⟨rfl, rfl, rfl, fun _ h => h⟩

theorem Still.at (h : Still s s') (x : ℕ) : StillAt s s' x :=
  ⟨by rw [h.created], by rw [h.init], fun c hc hi => ⟨h.active c hc, by rwa [h.idle] at hi⟩⟩

/-! ## What a step leaves -/

section Fields

variable {f : Thread → Thread}

@[simp] theorem setThread_self : (s.setThread t f).thread t = f (s.thread t) :=
  Function.update_self _ _ _

theorem setThread_of_ne (h : x ≠ t) : (s.setThread t f).thread x = s.thread x :=
  Function.update_of_ne h _ _

/-- A field that `f` leaves. -/
theorem setThread_proj {β : Type} (g : Thread → β) (hf : ∀ T, g (f T) = g T) (x : ℕ) :
    g ((s.setThread t f).thread x) = g (s.thread x) := by
  by_cases h : x = t
  · subst h
    rw [setThread_self, hf]
  · rw [setThread_of_ne h]

@[simp] theorem goto_pc_self {p : Pc} : (s.goto t p).pc t = p := Function.update_self _ _ _

theorem goto_pc_of_ne {p : Pc} (h : x ≠ t) : (s.goto t p).pc x = s.pc x :=
  Function.update_of_ne h _ _

end Fields

namespace Same

theorem refl (x : ℕ) : Same s s x := ⟨rfl, rfl, rfl, rfl, rfl, rfl, rfl, rfl, rfl, fun _ h => h⟩

theorem trans (h : Same s s' x) (h' : Same s' s'' x) : Same s s'' x :=
  ⟨h'.state.trans h.state, h'.affinity.trans h.affinity, h'.priority.trans h.priority,
    h'.block.trans h.block, h'.children.trans h.children, h'.joining.trans h.joining,
    h'.pc.trans h.pc, h'.node.trans h.node, h'.freed.trans h.freed,
    fun loc hl => h'.located loc (h.located loc hl)⟩

theorem setThread (f : Thread → Thread) (hx : x ≠ t) : Same s (s.setThread t f) x := by
  have h : (s.setThread t f).thread x = s.thread x := Function.update_of_ne hx _ _
  exact ⟨by rw [h], by rw [h], by rw [h], by rw [h], by rw [h], by rw [h], rfl, rfl, rfl,
    fun _ h => h⟩

theorem setState (st : ThreadState) (hx : x ≠ t) : Same s (s.setState t st) x := setThread _ hx

theorem goto (p : Pc) (hx : x ≠ t) : Same s (s.goto t p) x :=
  ⟨rfl, rfl, rfl, rfl, rfl, rfl, Function.update_of_ne hx _ _, rfl, rfl, fun _ h => h⟩

theorem returns (r : CallRet) : Same s (s.returns t r) x :=
  ⟨rfl, rfl, rfl, rfl, rfl, rfl, rfl, rfl, rfl, fun _ h => h⟩

theorem push (q : Table) (hx : x ≠ t) : Same s (s.push q t) x :=
  ⟨rfl, rfl, rfl, rfl, rfl, rfl, rfl, rfl, rfl, fun _ h => h.insert_other hx (.refl _)⟩

theorem popped {q : Table} (ht : (s.table q).getLast? = some t) (hx : x ≠ t) :
    Same s (s.popped q) x :=
  ⟨rfl, rfl, rfl, rfl, rfl, rfl, rfl, rfl, rfl, fun _ h => h.remove_other hx (perm_cons_dropLast ht)⟩

theorem setNode_priority (k : ℕ) : Same s (s.setNode t fun n => { n with priority := k }) x := by
  refine ⟨rfl, rfl, rfl, rfl, rfl, rfl, rfl, ?_, rfl, fun _ h => h⟩
  by_cases hx : x = t
  · subst hx
    simp [Sched.setNode]
  · simp [Sched.setNode, Function.update_of_ne hx]

end Same

/-- The list that `kernel_queue_push_prio` makes. -/
theorem perm_pushPrio (l : List ℕ) (f : ℕ → Bool) (n : ℕ) :
    (l.takeWhile f ++ n :: l.dropWhile f).Perm (n :: l) := by
  have h : (l.takeWhile f ++ n :: l.dropWhile f).Perm (n :: (l.takeWhile f ++ l.dropWhile f)) :=
    List.perm_middle
  rwa [List.takeWhile_append_dropWhile] at h

theorem Same.pushPrio (q : Table) (k : ℕ) (hx : x ≠ t) : Same s (s.pushPrio q t k) x := by
  refine (Same.setNode_priority k).trans
    ⟨rfl, rfl, rfl, rfl, rfl, rfl, rfl, rfl, rfl, fun _ h => h.insert_other hx ?_⟩
  exact perm_pushPrio _ _ _

theorem Located.pushPrio {q : Table} {k : ℕ} (h : Located s.table t none) :
    Located (s.pushPrio q t k).table t (some q) := h.insert_self (perm_pushPrio _ _ _)

theorem Located.push {q : Table} (h : Located s.table t none) :
    Located (s.push q t).table t (some q) := h.insert_self (.refl _)

theorem Located.popped {q : Table} (h : Located s.table t (some q))
    (ht : (s.table q).getLast? = some t) : Located (s.popped q).table t none :=
  h.remove_self (perm_cons_dropLast ht)

section Tables

variable {q q' : Table}

theorem push_table_of_ne (h : q' ≠ q) : (s.push q t).table q' = s.table q' :=
  Function.update_of_ne h _ _

theorem pushPrio_table_of_ne {k : ℕ} (h : q' ≠ q) : (s.pushPrio q t k).table q' = s.table q' :=
  Function.update_of_ne h _ _

theorem perm_pushPrio_table (s : Sched) (k : ℕ) :
    ((s.pushPrio q t k).table q).Perm (t :: s.table q) := by
  have htab : (s.pushPrio q t k).table q
      = (s.table q).takeWhile (fun x => k < ((s.pushPrio q t k).node x).priority)
        ++ t :: (s.table q).dropWhile fun x => k < ((s.pushPrio q t k).node x).priority :=
    Function.update_self _ _ _
  rw [htab]
  exact perm_pushPrio _ _ _

theorem popped_table_of_ne (h : q' ≠ q) : (s.popped q).table q' = s.table q' :=
  Function.update_of_ne h _ _

theorem popped_table_self (s : Sched) (q : Table) : (s.popped q).table q = (s.table q).dropLast :=
  Function.update_self _ _ _

end Tables

/-- A thread the step leaves stays good. -/
theorem Good.same (h : s.Good act x) (hx : Same s s' x) (hs : StillAt s s' x)
    (ho : s.On act x ↔ s'.On act' x) : s'.Good act' x where
  place := by
    obtain ⟨loc, hl, hsit⟩ := h.place
    refine ⟨loc, hx.located loc hl, ?_⟩
    rw [← propext ho, hx.pc]
    exact hsit.congr hx.state hx.affinity hx.priority hx.block
  prio := by
    rw [hx.priority]
    exact h.prio
  node := by
    rw [hx.node, hx.pc]
    exact h.node
  zombies hc hp hi hf := by
    rw [hs.created] at hc
    rw [hx.pc] at hp
    rw [ne_eq, hs.init] at hi
    rw [hx.freed] at hf
    obtain ⟨loc, hl, -⟩ := h.place
    exact (hx.located loc hl).mem_iff.2 (hl.eq_of_mem (h.zombies hc hp hi hf))
  children hc hp := by
    rw [hs.created] at hc
    rw [hx.pc] at hp
    rw [hx.children]
    exact h.children hc hp
  emptied hp := by
    rw [hx.pc] at hp
    rw [hx.children]
    exact h.emptied hp
  found j hp := by
    rw [hx.pc] at hp
    rw [hx.joining]
    exact h.found j hp
  init hi := by
    rw [hs.init] at hi
    rw [hx.pc, hx.children]
    exact h.init hi
  idle c hc hi := by
    obtain ⟨hc, hi⟩ := hs.idle c hc hi
    rw [hx.pc, hx.affinity, hs.created, hx.state]
    exact h.idle c hc hi
  fresh hc := by
    rw [← not_lt, hs.created, not_lt] at hc
    rw [hx.pc]
    exact ⟨(h.fresh hc).1, hx.located _ (h.fresh hc).2⟩
  stays hon := by
    rw [hx.pc]
    exact h.stays (ho.2 hon)

/-- A step that changes one thread. -/
theorem Core.of_same (h : s.Core act) (hs : Still s s') (hx : ∀ x, x ≠ t → Same s s' x)
    (ha : (s'.thread t).cpuAffinity = (s.thread t).cpuAffinity) (ht : s'.Good act t) :
    s'.Core act where
  good x := by
    by_cases hxt : x = t
    · subst hxt
      exact ht
    · refine (h.good x).same (hx x hxt) (hs.at x) ?_
      unfold On
      rw [(hx x hxt).affinity]
  active c x hc := by
    rw [hs.created]
    by_cases hxt : x = t
    · subst hxt
      rw [ha]
      exact h.active c x hc
    · rw [(hx x hxt).affinity]
      exact h.active c x hc
  init := by
    rw [hs.init, hs.created]
    exact h.init

end Sched

end RTLKIM

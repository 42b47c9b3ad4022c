import RTLKIM.SchedulerSpec
import RTLKIM.Lib.Run
import Mathlib.Data.List.DropRight

/-!
# The tables of one CPU

What `select_thread` relies on in the tables of its CPU, what it makes of them, and what a sleeping
table is that `kernel_queue_push_prio` has filled.
-/

namespace RTLKIM

/-- At a `sched_schedule` that ends a call. -/
def Pc.switches : Pc → Bool
  | .sched | .waitSched _ | .exitSched => true
  | _ => false

/-- `time_get_current_uptime` after so many ticks of the main timer. -/
def timeGetCurrentUptime (ticks : ℕ) : ℕ := 1000 / kernelMainTimerFreq * ticks % 2 ^ 64

/-- The uptimes of the main timer, as long as they do not wrap. -/
def Uptime (v : ℕ) : Prop :=
  ∃ ticks, 1000 / kernelMainTimerFreq * ticks < 2 ^ 64 ∧ timeGetCurrentUptime ticks = v

/-- The time that `sched_sleep` stores is less than just those uptimes that are not before `now + ms`:
`ms` is so many ticks, and the wake-up is not before the first uptime nor past the last. -/
structure Timely (now ms : ℕ) : Prop where
  ticks : 1000 / kernelMainTimerFreq ∣ ms
  low : 1000 / kernelMainTimerFreq ≤ now + ms
  high : now + ms < 2 ^ 64 + 1000 / kernelMainTimerFreq

/-- The uptime at an event. -/
def SchedEv.now : SchedEv → ℕ
  | .initAp _ => 0
  | .call _ now _ | .stmt _ now | .timer _ now => now

namespace Sched

/-- What the tables of CPU `c` hold: the active ones its ready threads, by priority, and the sleeping
one sleepers. The idle thread is one of its threads that can always run. -/
structure Tables (s : Sched) (c : ℕ) : Prop where
  active : ∃ t, s.activeThread c = some t ∧ (s.thread t).cpuAffinity = c
  running : ∀ t, (s.thread t).state = .running → (s.thread t).cpuAffinity = c →
    s.activeThread c = some t
  ready : ∀ t i, t ∈ s.table (.active c i)
    ↔ (s.thread t).state = .ready ∧ (s.thread t).cpuAffinity = c ∧ (s.thread t).priority = i
  sleeping : ∀ t ∈ s.table (.sleeping c), (s.thread t).state = .sleeping
    ∧ (s.thread t).cpuAffinity = c ∧ s.activeThread c ≠ some t
  nodup : ∀ q, (s.table q).Nodup
  node : ∀ t, (s.thread t).cpuAffinity = c → (s.thread t).state = .running
    ∨ (s.thread t).state = .ready ∨ (s.thread t).state = .sleeping → (s.node t).data = some t
  prio : ∀ t, (s.thread t).priority ≤ kernelLowestPriority
  idle : ∃ t, (s.thread t).cpuAffinity = c
    ∧ ((s.thread t).state = .running ∨ (s.thread t).state = .ready)

/-! ## An election -/

/-- The threads of priority `i` from the last to be served: the sleepers `w` that are woken up, the
thread switched from if it was running, and those that were ready. -/
def queued (s : Sched) (c prev : ℕ) (w : List ℕ) (i : ℕ) : List ℕ :=
  w.filter (fun t => (s.thread t).priority = i)
    ++ (if (s.thread prev).state = .running ∧ (s.thread prev).priority = i then [prev] else [])
    ++ s.table (.active c i)

/-- CPU `c` goes from `prev` to `e`, the first to be served of the least priority index, when the
sleepers `w` have been woken up. -/
structure Election (s : Sched) (c prev e : ℕ) (w : List ℕ) (s' : Sched) : Prop where
  woken : ∀ t, t ∈ w ↔ (t ∈ s.table (.sleeping c) ∨ t = prev ∧ (s.thread prev).state = .sleeping)
    ∧ (s'.thread t).state ≠ .sleeping
  nodup : w.Nodup
  active : s'.activeThread c = some e
  running : (s'.thread e).state = .running
  front : ∃ i, (∀ j < i, s.queued c prev w j = []) ∧ (s.queued c prev w i).getLast? = some e
    ∧ ∀ j, s'.table (.active c j)
      = if j = i then (s.queued c prev w j).dropLast else s.queued c prev w j
  best : ∀ t, (s.thread t).cpuAffinity = c →
    (s.thread t).state = .ready ∨ (s'.thread t).state = .ready →
    (s.thread e).priority ≤ (s.thread t).priority

/-- The step runs `select_thread` on CPU `c`. -/
def Selects (s : Sched) (c : ℕ) : SchedEv → Prop
  | .timer c' _ => c' = c
  | .stmt c' _ => c' = c ∧ ∃ t ∈ s.activeThread c, (s.pc t).switches = true
  | _ => False

instance (s : Sched) (c : ℕ) : ∀ e, Decidable (s.Selects c e)
  | .timer c' _ => inferInstanceAs (Decidable (c' = c))
  | .stmt _ _ => inferInstanceAs (Decidable (_ ∧ ∃ t ∈ _, _))
  | .initAp _ | .call _ _ _ => instDecidableFalse

/-- The step is an election on CPU `c`, and `t` is elected. -/
def Elects (s : Sched) (c t : ℕ) (e : SchedEv) : Prop :=
  s.Selects c e ∧ ∃ s' ∈ s.step e, s'.activeThread c = some t

instance (s : Sched) (c t : ℕ) (e : SchedEv) : Decidable (s.Elects c t e) :=
  inferInstanceAs (Decidable (_ ∧ ∃ s' ∈ _, _))

/-- A thread of CPU `c` of priority `p` that runs or can. -/
def Runnable (s : Sched) (c p t : ℕ) : Prop :=
  ((s.thread t).state = .running ∨ (s.thread t).state = .ready) ∧ (s.thread t).cpuAffinity = c
    ∧ (s.thread t).priority = p

instance (s : Sched) (c p t : ℕ) : Decidable (s.Runnable c p t) :=
  inferInstanceAs (Decidable (_ ∧ _ ∧ _))

/-! ## The sleepers -/

/-- The sleepers whose time has come, as far as the loop goes from the tail. -/
def woken (s : Sched) (c now : ℕ) : List ℕ :=
  (s.table (.sleeping c)).rtakeWhile fun t => (s.thread t).wakeupTime < now

/-- The sleepers from the head to the first, from the tail, whose time has not come. -/
def kept (s : Sched) (c now : ℕ) : List ℕ :=
  (s.table (.sleeping c)).rdropWhile fun t => (s.thread t).wakeupTime < now

/-- A sleeping table in order: a node's priority is the time of its thread as far as it fits, and it
goes down from the head. -/
structure ByTime (s : Sched) (c : ℕ) : Prop where
  key : ∀ t ∈ s.table (.sleeping c), (s.node t).priority = (s.thread t).wakeupTime % 2 ^ 32
  sorted : (s.table (.sleeping c)).Pairwise fun a b => (s.node b).priority ≤ (s.node a).priority

/-- A sleeping table that `kernel_queue_push_prio` has filled. -/
structure Asleep (s : Sched) (c : ℕ) : Prop extends s.ByTime c where
  nodup : (s.table (.sleeping c)).Nodup
  node : ∀ t ∈ s.table (.sleeping c), (s.node t).data = some t

instance (s : Sched) (c : ℕ) : Decidable (s.ByTime c) :=
  decidable_of_iff (_ ∧ _) ⟨fun h => ⟨h.1, h.2⟩, fun h => ⟨h.key, h.sorted⟩⟩

instance (s : Sched) (c : ℕ) : Decidable (s.Asleep c) :=
  decidable_of_iff (s.ByTime c ∧ _ ∧ _) ⟨fun h => ⟨h.1, h.2.1, h.2.2⟩,
    fun h => ⟨h.toByTime, h.nodup, h.node⟩⟩

/-- No sleeper whose time has not come is in the way from the tail of the table to `t`: each has
greater lower 32 bits of its time, or the same and is nearer the head. -/
def Clear (s : Sched) (c now t : ℕ) : Prop :=
  ∀ y ∈ s.table (.sleeping c), now ≤ (s.thread y).wakeupTime →
    (s.thread t).wakeupTime % 2 ^ 32 < (s.thread y).wakeupTime % 2 ^ 32
    ∨ (s.thread t).wakeupTime % 2 ^ 32 = (s.thread y).wakeupTime % 2 ^ 32
      ∧ (s.table (.sleeping c)).idxOf y < (s.table (.sleeping c)).idxOf t

/-- What the loop is to make of `s`: the sleepers left are those whose time has not come, and the
others are ready in their active tables. -/
structure WakesAll (s : Sched) (c now : ℕ) (s' : Sched) : Prop where
  left : ∀ t, t ∈ s'.table (.sleeping c)
    ↔ t ∈ s.table (.sleeping c) ∧ now ≤ (s.thread t).wakeupTime
  ready : ∀ t ∈ s.table (.sleeping c), (s.thread t).wakeupTime < now →
    (s'.thread t).state = .ready ∧ t ∈ s'.table (.active c (s.thread t).priority)

end Sched

end RTLKIM

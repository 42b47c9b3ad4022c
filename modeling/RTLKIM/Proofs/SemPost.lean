import RTLKIM.SemPost
import RTLKIM.Proofs.LockSection
import RTLKIM.Lib.Run

/-!
# When `sem_post` switches context

With interrupts off `sem_post` unlocks the waiter it popped and then calls `sched_schedule`, so it
keeps quiet exactly when it has no waiter to wake (`semPost_quiet_iff`). The data sections of queues
and mailboxes turn interrupts off, and switch context with their lock taken.
-/

namespace RTLKIM

namespace Sched

/-- The thread can be unlocked from a semaphore. -/
def Blocked (s : Sched) (c n : ℕ) : Prop :=
  ∃ x ∈ (s.node n).data, x ≠ s.idleThread c ∧ (s.thread x).state = .waiting
    ∧ (s.thread x).blockType = .sem

/-- `sched_unlock_thread` passes its checks when the waiter is blocked. -/
theorem unlock_ok_iff {s : Sched} {c t o n : ℕ} {d : Bool}
    (hn : (s.table (.waiting .sem o)).getLast? = some n) :
    (∃ s', s.unlock c t .sem o d = .ok s') ↔ s.Blocked c n := by
  unfold unlock Blocked
  rw [hn]
  rcases hd : (s.node n).data with _ | x
  · simp [hd]
  · simp only [hd, Option.mem_some_iff, exists_eq_left']
    by_cases hx : x = s.idleThread c
    · simp [hx]
    · by_cases hw : (s.thread x).state ≠ .waiting ∨ (s.thread x).blockType ≠ .sem
      · rw [if_neg hx, if_pos hw]
        simp only [reduceCtorEq, exists_false, false_iff]
        tauto
      · rw [if_neg hx, if_neg hw]
        simp only [Except.ok.injEq, exists_eq', true_iff]
        tauto

end Sched

namespace SemCpu

variable {s : SemCpu} {t o : ℕ}

theorem wakesOn_iff : s.WakesOn o ↔ s.init o = true ∧ 0 < s.level o + 1
    ∧ ∃ n, (s.sched.table (.waiting .sem o)).getLast? = some n ∧ s.sched.Blocked s.cpu n := Iff.rfl

/-- The state of `sem_post` after its section. -/
def posted (s : SemCpu) (o : ℕ) : SemCpu :=
  { s with level := Function.update s.level o (s.level o + 1) }

/-- `sem_post` on a semaphore that is initialised. -/
theorem semPost_eq (hinit : s.init o = true) : s.semPost t (some o) =
    if 0 < s.level o + 1 ∧ s.sched.table (.waiting .sem o) ≠ [] then
      ((s.posted o).unlockWaiter t o).map fun s => (s, .noErr)
    else .ok (s.posted o, .noErr) := by
  have hk : s.crit.otherSection = s.crit := CritState.otherSection_eq _
  unfold CritState.otherSection at hk
  rw [CritState.disable_eq] at hk
  simp only [semPost, CritState.disable_eq, hinit, Bool.true_eq_false, if_false, posted,
    Function.update_self, hk]

/-- With interrupts off, `sem_post` calls `sched_schedule` when it has a waiter to wake. -/
theorem semPost_wakes (hi : s.crit.ints = false) (hw : s.WakesOn o) :
    ∃ s', s.semPost t (some o) = .ok (s', .noErr) ∧ s'.schedules = s.crit :: s.schedules
      ∧ s'.crit = s.crit := by
  obtain ⟨hinit, hlev, n, hn, hb⟩ := wakesOn_iff.1 hw
  obtain ⟨sched, hu⟩ := (Sched.unlock_ok_iff (t := t) (d := true) hn).2 hb
  have hne : s.sched.table (.waiting .sem o) ≠ [] := by
    intro h
    simp [h] at hn
  have huw : (s.posted o).unlockWaiter t o
      = .ok { s.posted o with sched := sched, schedules := s.crit :: s.schedules } := by
    have hc : (s.posted o).crit.kernelInterruptGetState = false := hi
    simp only [unlockWaiter, hc, Bool.false_eq_true, if_false, if_true]
    change (s.sched.unlock s.cpu t .sem o true).map _ = _
    rw [hu]
    rfl
  refine ⟨{ s.posted o with sched := sched, schedules := s.crit :: s.schedules }, ?_, rfl, rfl⟩
  rw [semPost_eq hinit, if_pos ⟨hlev, hne⟩, huw]
  rfl

theorem unlockWaiter_ok {s' : SemCpu} (h : s.unlockWaiter t o = .ok s') :
    ∃ d sched, s.sched.unlock s.cpu t .sem o d = .ok sched := by
  unfold unlockWaiter at h
  rcases hu : s.sched.unlock s.cpu t .sem o
      (if s.crit.kernelInterruptGetState then false else true) with _ | sched
  · simp only [hu] at h
    cases h
  · exact ⟨_, sched, hu⟩

/-- With nobody to wake it does not. -/
theorem semPost_quiet {s' : SemCpu} {e : PostErr} (hw : ¬ s.WakesOn o)
    (h : s.semPost t (some o) = .ok (s', e)) : s'.schedules = s.schedules := by
  by_cases hinit : s.init o = true
  · rw [semPost_eq hinit] at h
    split_ifs at h with hc
    · -- a waiter that cannot be unlocked makes `sem_post` panic
      have hn := List.getLast?_eq_some_getLast hc.2
      rcases hu : (s.posted o).unlockWaiter t o with _ | s₁
      · rw [hu] at h
        cases h
      · obtain ⟨d, sched, hs⟩ := unlockWaiter_ok hu
        have hb := (Sched.unlock_ok_iff hn).1 ⟨sched, hs⟩
        exact absurd (wakesOn_iff.2 ⟨hinit, hc.1, _, hn, hb⟩) hw
    · cases h
      rfl
  · rw [Bool.not_eq_true] at hinit
    simp only [semPost, hinit, if_true] at h
    cases h
    rfl

/-- A call of `sem_post` with interrupts off. -/
theorem semPost_quiet_iff (hi : s.crit.ints = false) :
    s.Quiet ((s.semPost t (some o)).map Prod.fst) ↔ ¬ s.WakesOn o := by
  constructor
  · intro hq hw
    obtain ⟨s', h, hs', -⟩ := semPost_wakes (t := t) hi hw
    have := hq s' (by rw [h]; rfl)
    rw [hs'] at this
    exact absurd this (List.cons_ne_self _ _)
  · intro hw s' h
    rcases hp : s.semPost t (some o) with _ | ⟨s₁, e⟩
    · rw [hp] at h
      cases h
    · rw [hp] at h
      cases h
      exact semPost_quiet hw hp

/-- What is said of a call: it is quiet when it has nobody to wake, and otherwise calls
`sched_schedule` once, in a state of the CPU that `P` holds of. -/
def Switches (s : SemCpu) (w : Prop) (P : CritState → Prop) (r : Except Halt SemCpu) : Prop :=
  (s.Quiet r ↔ ¬ w) ∧ (w → ∃ s' k, r = .ok s' ∧ s'.schedules = k :: s.schedules ∧ k.ints = false ∧ P k)

/-- The data section of a post switches context inside the section. -/
theorem postSection_switches {r : Except Halt SemCpu} (h : s.postSection t o = some r) :
    s.Switches (s.WakesOn o) (fun k => k.booted ≤ 1
      ∨ k.lock.currentTid = s.crit.cpuId ∧ k.lock.nesting = s.crit.lock.nesting + 1) r := by
  unfold postSection at h
  rw [Option.map_eq_some_iff] at h
  obtain ⟨⟨x, k⟩, hE, h⟩ := h
  have E := CritState.enter_spec hE
  -- the waiters are those before the section
  have hw : ({ s with crit := k } : SemCpu).WakesOn o ↔ s.WakesOn o := by
    unfold WakesOn cpu
    rw [E.cpuId]
  have hiff := semPost_quiet_iff (s := { s with crit := k }) (t := t) (o := o) E.ints
  rw [hw] at hiff
  dsimp only at h
  refine ⟨?_, fun hwake => ?_⟩
  · rw [← hiff]
    rcases hp : semPost { s with crit := k } t (some o) with _ | ⟨s₁, e⟩
    · rw [hp] at h
      subst h
      simp [Quiet, Except.map]
    · rw [hp] at h
      subst h
      simp [Quiet, Except.map]
  · obtain ⟨s₁, hp, hs, -⟩ := semPost_wakes (t := t) E.ints (hw.2 hwake)
    refine ⟨{ s₁ with crit := s₁.crit.exitCritical x }, k, ?_, hs, E.ints, ?_⟩
    · rw [← h, hp]
      rfl
    · rcases Nat.lt_or_ge 1 k.booted with hb | hb
      · exact .inr ⟨E.tid hb, E.nesting hb⟩
      · exact .inl hb

theorem pendSection_switches {i : Bool} {r : Except Halt SemCpu}
    (h : s.pendSection t i o = some r) : s.Switches (i = true ∧ s.WakesOn o) (fun k => k.booted ≤ 1
      ∨ k.lock.currentTid = s.crit.cpuId ∧ k.lock.nesting = s.crit.lock.nesting + 1) r := by
  unfold pendSection at h
  cases i with
  | false =>
    rw [if_pos rfl, Option.map_eq_some_iff] at h
    obtain ⟨⟨x, k⟩, -, h⟩ := h
    subst h
    refine ⟨⟨fun _ => by simp, fun _ s' h' => ?_⟩, by simp⟩
    cases h'
    rfl
  | true =>
    rw [if_neg (by simp)] at h
    have hs := postSection_switches h
    simpa [Switches] using hs

/-- With interrupts off when it is called, `sem_post` calls `sched_schedule` exactly when it has a
waiter to wake; the four operations then switch context with the lock of their object taken. -/
theorem sem_post_quiet_iff {k : PostCall} {r : Except Halt SemCpu} (hi : s.InterruptsOff k)
    (h : s.run t k = some r) : (s.Quiet r ↔ ¬ s.Wakes k)
      ∧ (s.Wakes k → ∃ s' c, r = .ok s' ∧ s'.schedules = c :: s.schedules ∧ c.ints = false
        ∧ s.HoldsLock k c) := by
  cases k with
  | semPost sem =>
    cases h
    rcases sem with _ | o
    · refine ⟨⟨fun _ => by simp [Wakes], fun _ s' h => ?_⟩, by simp [Wakes]⟩
      cases h
      rfl
    · simp only [Wakes, Option.mem_some_iff, exists_eq_left']
      refine ⟨semPost_quiet_iff hi, fun hw => ?_⟩
      obtain ⟨s', hp, hs, -⟩ := semPost_wakes (t := t) hi hw
      exact ⟨s', s.crit, by rw [hp]; rfl, hs, hi, trivial⟩
  | queuePost o | mailboxPost o => exact postSection_switches h
  | queuePend o | mailboxPend o => exact pendSection_switches h

/-- Init waits on semaphore `0` and the thread it created runs, on the one CPU there is. -/
def initWaits : Option Sched :=
  runEvents Sched.step (Sched.schedInit 1) [.timer 0 0, .call 0 0 (.create 10 0 6),
    .call 0 0 (.lock .sem 0), .stmt 0 0]

/-- That thread in its own code, with interrupts enabled; the semaphores `0` and `1` have level
`0`. -/
def posterOf (sched : Sched) : SemCpu :=
  ⟨⟨0, 1, true, ⟨0, -1, 0⟩⟩, sched, fun _ => 0, fun _ => true, []⟩

def waitedQueue : IpcObject := ⟨true, 0, 1⟩

/-- A post to a queue that nobody waits for. -/
theorem sem_post_quiet_nobody : ∃ r, (posterOf (Sched.schedInit 1)).run 1 (.queuePost waitedQueue)
    = some r ∧ (posterOf (Sched.schedInit 1)).Quiet r := by
  obtain ⟨r, hr⟩ : ∃ r, (posterOf (Sched.schedInit 1)).run 1 (.queuePost waitedQueue) = some r :=
    ⟨_, rfl⟩
  have hi : (posterOf (Sched.schedInit 1)).InterruptsOff (.queuePost waitedQueue) := trivial
  refine ⟨r, hr, (sem_post_quiet_iff hi hr).1.2 ?_⟩
  rintro ⟨-, -, n, hn, -⟩
  have hnil : (Sched.schedInit 1).table (.waiting .sem 0) = [] := by decide +kernel
  change n ∈ ((Sched.schedInit 1).table (.waiting .sem 0)).getLast? at hn
  simp [hnil] at hn

/-- The thread posts to a queue that init waits for. -/
theorem sem_post_not_quiet : ¬ ∀ (s : SemCpu) (t : ℕ) (k : PostCall) (r : Except Halt SemCpu),
    s.InterruptsOff k → s.run t k = some r → s.Quiet r := by
  intro h
  have hlog : (initWaits.bind fun sched => ((posterOf sched).run 2 (.queuePost waitedQueue)).bind
      fun r => r.toOption.map SemCpu.schedules) = some [⟨0, 1, false, ⟨0, -1, 0⟩⟩] := by
    decide +kernel
  simp only [Option.bind_eq_some_iff, Option.map_eq_some_iff] at hlog
  obtain ⟨sched, -, r, hr, s', hs', hlog⟩ := hlog
  have hok : r = .ok s' := by
    cases r with
    | error => cases hs'
    | ok s₁ => cases hs'; rfl
  have hi : (posterOf sched).InterruptsOff (.queuePost waitedQueue) := trivial
  have hq := h _ _ _ _ hi hr s' hok
  rw [hlog] at hq
  cases hq

end SemCpu

end RTLKIM

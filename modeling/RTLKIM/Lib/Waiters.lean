import Mathlib.Data.Finset.Card
import Mathlib.Data.Fintype.Defs
import Mathlib.Data.List.Nodup
import Mathlib.Logic.Function.Basic
import Mathlib.Tactic.ByCases

/-!
# Threads that wait in a queue

A queue of waiting threads, last in first, and where each thread is: outside, parked in the queue,
popped from it and not woken up yet, or woken up and still to look again at what it waited for. The
last two are `due`.
-/

namespace RTLKIM

/-- Where a thread is in its wait. -/
inductive Phase
  | out
  | parked
  | popped
  | woken
  deriving DecidableEq

/-- A thread that waits is parked, or popped and not woken up. -/
def Phase.waiting : Phase → Bool
  | .parked | .popped => true
  | _ => false

structure Waiters (τ : Type*) where
  queue : List τ
  phase : τ → Phase

namespace Waiters

variable {τ : Type*}

/-- Nobody waits. -/
def empty : Waiters τ := ⟨[], fun _ => .out⟩

section Ops

variable [DecidableEq τ]

def park (w : Waiters τ) (t : τ) : Waiters τ := ⟨t :: w.queue, Function.update w.phase t .parked⟩

/-- The queue without its last thread, which is `x`. -/
def pop (w : Waiters τ) (x : τ) : Waiters τ :=
  ⟨w.queue.dropLast, Function.update w.phase x .popped⟩

def wake (w : Waiters τ) (x : τ) : Waiters τ := { w with phase := Function.update w.phase x .woken }

def leave (w : Waiters τ) (t : τ) : Waiters τ := { w with phase := Function.update w.phase t .out }

/-- Wakes up a thread, which has to wait. -/
def wakeWaiting (w : Waiters τ) (x : τ) : Option (Waiters τ) :=
  if (w.phase x).waiting then some (w.wake x) else none

/-- Pops and wakes up the threads of a queue, given from its tail. -/
def wakeAll : List τ → Waiters τ → Option (Waiters τ)
  | [], w => some w
  | x :: l, w => ((w.pop x).wakeWaiting x).bind (wakeAll l)

end Ops

/-- The queue holds each parked thread once. -/
structure Wf (w : Waiters τ) : Prop where
  nodup : w.queue.Nodup
  mem : ∀ t, t ∈ w.queue ↔ w.phase t = .parked

theorem wf_empty : (empty : Waiters τ).Wf := ⟨.nil, by simp [empty]⟩

section

variable [DecidableEq τ] {w : Waiters τ} {t x : τ}

theorem Wf.park (h : w.Wf) (ht : w.phase t ≠ .parked) : (w.park t).Wf := by
  refine ⟨List.nodup_cons.2 ⟨(h.mem t).not.2 ht, h.nodup⟩, fun y => ?_⟩
  show y ∈ t :: w.queue ↔ Function.update w.phase t .parked y = .parked
  rw [List.mem_cons, h.mem]
  by_cases hy : y = t
  · simp [hy]
  · simp [hy]

/-- Where a thread goes that is not parked before or after. -/
theorem Wf.move (h : w.Wf) (ht : w.phase t ≠ .parked) {p : Phase} (hp : p ≠ .parked) :
    Wf { w with phase := Function.update w.phase t p } := by
  refine ⟨h.nodup, fun y => ?_⟩
  show y ∈ w.queue ↔ Function.update w.phase t p y = .parked
  rw [h.mem]
  by_cases hy : y = t
  · simp [hy, ht, hp]
  · simp [Function.update_of_ne hy]

theorem Wf.leave (h : w.Wf) (ht : w.phase t ≠ .parked) : (w.leave t).Wf := h.move ht (by simp)

theorem Wf.wake (h : w.Wf) (hx : w.phase x ≠ .parked) : (w.wake x).Wf := h.move hx (by simp)

theorem Wf.pop (h : w.Wf) (hx : w.queue.getLast? = some x) : (w.pop x).Wf := by
  obtain ⟨l, hl⟩ := List.getLast?_eq_some_iff.1 hx
  have hnd := h.nodup
  rw [hl, List.nodup_append] at hnd
  have hdrop : (w.pop x).queue = l := by
    show w.queue.dropLast = l
    rw [hl, List.dropLast_concat]
  refine ⟨by rw [hdrop]; exact hnd.1, fun y => ?_⟩
  rw [hdrop]
  show y ∈ l ↔ Function.update w.phase x .popped y = .parked
  by_cases hy : y = x
  · subst hy
    rw [Function.update_self]
    exact iff_of_false (fun hm => hnd.2.2 y hm y (by simp) rfl) (by simp)
  · rw [Function.update_of_ne hy, ← h.mem, hl]
    simp [hy]

omit [DecidableEq τ] in
theorem Wf.parked_of_getLast (h : w.Wf) (hx : w.queue.getLast? = some x) : w.phase x = .parked :=
  (h.mem x).1 (List.mem_of_getLast? hx)

theorem leave_of_out (h : w.phase t = .out) : w.leave t = w := by
  unfold leave
  rw [← h, Function.update_eq_self]

theorem wakeWaiting_ok {w' : Waiters τ} (h : w.wakeWaiting x = some w') : w' = w.wake x := by
  unfold wakeWaiting at h
  split_ifs at h
  cases h
  rfl

theorem wakeWaiting_popped (h : w.phase x = .popped) : w.wakeWaiting x = some (w.wake x) := by
  unfold wakeWaiting
  rw [h]
  rfl

/-- Every thread of the queue is woken up, from the last. -/
theorem wakeAll_ok : ∀ {l : List τ} {w : Waiters τ}, w.Wf → w.queue.reverse = l →
    ∃ w', wakeAll l w = some w' ∧ w'.queue = []
      ∧ ∀ y, w'.phase y = if w.phase y = .parked then .woken else w.phase y
  | [], w, hwf, hl => by
    have hq : w.queue = [] := by simpa using hl
    refine ⟨w, rfl, hq, fun y => ?_⟩
    have : w.phase y ≠ .parked := fun hy => by
      have := (hwf.mem y).2 hy
      simp [hq] at this
    rw [if_neg this]
  | x :: l, w, hwf, hl => by
    have hq : w.queue = l.reverse ++ [x] := by
      rw [← List.reverse_cons, ← hl, List.reverse_reverse]
    have hx : w.queue.getLast? = some x := by
      rw [hq, List.getLast?_concat]
    have hpop : (w.pop x).phase x = .popped := Function.update_self _ _ _
    have hwf₁ : ((w.pop x).wake x).Wf := (hwf.pop hx).wake (by rw [hpop]; simp)
    have hl₁ : ((w.pop x).wake x).queue.reverse = l := by
      show w.queue.dropLast.reverse = l
      rw [hq, List.dropLast_concat, List.reverse_reverse]
    obtain ⟨w', h1, h2, h3⟩ := wakeAll_ok hwf₁ hl₁
    refine ⟨w', ?_, h2, fun y => ?_⟩
    · unfold wakeAll
      rw [wakeWaiting_popped hpop]
      exact h1
    · rw [h3 y]
      have hph : ((w.pop x).wake x).phase y
          = Function.update (Function.update w.phase x .popped) x .woken y := rfl
      rw [hph, Function.update_idem]
      by_cases hy : y = x
      · subst hy
        simp [(hwf.mem y).1 (List.mem_of_getLast? hx)]
      · rw [Function.update_of_ne hy]

end

/-! ## Who wakes up a popped thread -/

/-- The queue is well formed, and a popped thread is to be woken up by one thread: the one that
`unlocks` it. -/
structure Served (w : Waiters τ) (unlocks : τ → Option τ) : Prop where
  wf : w.Wf
  popped_of : ∀ t x, unlocks t = some x → w.phase x = .popped
  popped : ∀ x, w.phase x = .popped → ∃ t, unlocks t = some x
  once : ∀ t u x, unlocks t = some x → unlocks u = some x → t = u

theorem served_empty : Served (empty : Waiters τ) fun _ => none :=
  ⟨wf_empty, by simp, by simp [empty], by simp⟩

section

variable [DecidableEq τ] {w w' : Waiters τ} {t x : τ} {f : τ → Option τ}

/-- A thread that is not in the queue goes where it is not popped. -/
theorem Served.update (h : w.Served f) {p : Phase} (ht : w.phase t = .out ∨ w.phase t = .woken)
    (hp : p ≠ .popped) (hph : w'.phase = Function.update w.phase t p) (hwf : w'.Wf) :
    w'.Served f := by
  have hne : ∀ {x}, w.phase x = .popped → x ≠ t := by
    rintro x hx rfl
    rcases ht with ht | ht <;> rw [hx] at ht <;> cases ht
  refine ⟨hwf, fun u x hx => ?_, fun x hx => ?_, h.once⟩
  · have := h.popped_of u x hx
    rw [hph, Function.update_of_ne (hne this)]
    exact this
  · rw [hph] at hx
    by_cases hxt : x = t
    · rw [hxt, Function.update_self] at hx
      exact absurd hx hp
    · rw [Function.update_of_ne hxt] at hx
      exact h.popped x hx

omit [DecidableEq τ] in
theorem not_parked (ht : w.phase t = .out ∨ w.phase t = .woken) : w.phase t ≠ .parked := by
  rcases ht with ht | ht <;> rw [ht] <;> simp

theorem Served.leave (h : w.Served f) (ht : w.phase t = .out ∨ w.phase t = .woken) :
    (w.leave t).Served f :=
  h.update ht (p := .out) (by simp) rfl (h.wf.leave (not_parked ht))

theorem Served.park (h : w.Served f) (ht : w.phase t = .out ∨ w.phase t = .woken) :
    (w.park t).Served f :=
  h.update ht (p := .parked) (by simp) rfl (h.wf.park (not_parked ht))

theorem Served.pop (h : w.Served f) (ht : f t = none) (hx : w.queue.getLast? = some x) :
    (w.pop x).Served (Function.update f t (some x)) := by
  have hpark := h.wf.parked_of_getLast hx
  have hph : (w.pop x).phase = Function.update w.phase x .popped := rfl
  have hne : ∀ {u y}, f u = some y → y ≠ x := by
    rintro u y hy rfl
    have := h.popped_of u y hy
    rw [hpark] at this
    cases this
  have hut : ∀ {u y}, f u = some y → u ≠ t := by
    rintro u y hy rfl
    rw [ht] at hy
    cases hy
  have hcases : ∀ {u y}, Function.update f t (some x) u = some y → u = t ∧ y = x ∨ f u = some y := by
    intro u y hy
    by_cases h' : u = t
    · rw [h', Function.update_self] at hy
      exact .inl ⟨h', (Option.some_inj.1 hy).symm⟩
    · rw [Function.update_of_ne h'] at hy
      exact .inr hy
  refine ⟨h.wf.pop hx, fun u y hy => ?_, fun y hy => ?_, fun u r y h1 h2 => ?_⟩
  · rw [hph]
    rcases hcases hy with ⟨-, rfl⟩ | hy
    · exact Function.update_self _ _ _
    · rw [Function.update_of_ne (hne hy)]
      exact h.popped_of u y hy
  · rw [hph] at hy
    by_cases hyx : y = x
    · exact ⟨t, by rw [Function.update_self, hyx]⟩
    · rw [Function.update_of_ne hyx] at hy
      obtain ⟨u, hu⟩ := h.popped y hy
      exact ⟨u, by rw [Function.update_of_ne (hut hu)]; exact hu⟩
  · rcases hcases h1 with ⟨rfl, rfl⟩ | h1' <;> rcases hcases h2 with ⟨rfl, h3⟩ | h2'
    · rfl
    · exact absurd rfl (hne h2')
    · exact absurd h3 (hne h1')
    · exact h.once u r y h1' h2'

theorem Served.wake (h : w.Served f) (ht : f t = some x) :
    (w.wake x).Served (Function.update f t none) := by
  have hpop := h.popped_of t x ht
  have hph : (w.wake x).phase = Function.update w.phase x .woken := rfl
  have hcases : ∀ {u y}, Function.update f t none u = some y → u ≠ t ∧ f u = some y := by
    intro u y hy
    by_cases h' : u = t
    · rw [h', Function.update_self] at hy
      cases hy
    · rw [Function.update_of_ne h'] at hy
      exact ⟨h', hy⟩
  refine ⟨h.wf.wake (by rw [hpop]; simp), fun u y hy => ?_, fun y hy => ?_,
    fun u r y h1 h2 => h.once u r y (hcases h1).2 (hcases h2).2⟩
  · obtain ⟨hut, hy⟩ := hcases hy
    have hyx : y ≠ x := by
      rintro rfl
      exact hut (h.once u t y hy ht)
    rw [hph, Function.update_of_ne hyx]
    exact h.popped_of u y hy
  · rw [hph] at hy
    have hyx : y ≠ x := by
      rintro rfl
      rw [Function.update_self] at hy
      cases hy
    rw [Function.update_of_ne hyx] at hy
    obtain ⟨u, hu⟩ := h.popped y hy
    refine ⟨u, ?_⟩
    have hut : u ≠ t := by
      rintro rfl
      rw [ht] at hu
      exact hyx (Option.some_inj.1 hu).symm
    rw [Function.update_of_ne hut]
    exact hu

theorem Served.wakeAll (h : w.Served f) (hw : wakeAll w.queue.reverse w = some w') :
    w'.Served f ∧ w'.queue = [] := by
  obtain ⟨w₁, h1, h2, h3⟩ := wakeAll_ok h.wf rfl
  rw [hw] at h1
  cases h1
  have hiff : ∀ y, w'.phase y = .popped ↔ w.phase y = .popped := by
    intro y
    rw [h3 y]
    split_ifs with hy
    · simp [hy]
    · rfl
  refine ⟨⟨⟨by rw [h2]; exact .nil, fun y => ?_⟩, fun u y hy => ?_, fun y hy => ?_, h.once⟩, h2⟩
  · rw [h2, h3 y]
    split_ifs with hy
    · simp
    · simp [hy]
  · exact (hiff y).2 (h.popped_of u y hy)
  · exact h.popped y ((hiff y).1 hy)

end

/-! ## Who is due -/

section Due

variable [Fintype τ] {w : Waiters τ} {t x : τ}

/-- The threads popped that have not looked again. -/
def due (w : Waiters τ) : Finset τ :=
  Finset.univ.filter fun t => w.phase t = .popped ∨ w.phase t = .woken

theorem mem_due : t ∈ w.due ↔ w.phase t = .popped ∨ w.phase t = .woken := by simp [due]

variable [DecidableEq τ]

theorem due_update_erase {q : List τ} {p : Phase} (hp : p = .out ∨ p = .parked) :
    (Waiters.mk q (Function.update w.phase t p)).due = w.due.erase t := by
  ext y
  rw [mem_due, Finset.mem_erase, mem_due]
  by_cases hy : y = t
  · rcases hp with rfl | rfl <;> simp [hy]
  · simp [hy]

theorem due_update_insert {q : List τ} {p : Phase} (hp : p = .popped ∨ p = .woken) :
    (Waiters.mk q (Function.update w.phase x p)).due = insert x w.due := by
  ext y
  rw [mem_due, Finset.mem_insert, mem_due]
  by_cases hy : y = x
  · rcases hp with rfl | rfl <;> simp [hy]
  · simp [hy]

theorem due_leave : (w.leave t).due = w.due.erase t := due_update_erase (.inl rfl)

theorem due_pop : (w.pop x).due = insert x w.due := due_update_insert (.inl rfl)

theorem due_wake : (w.wake x).due = insert x w.due := due_update_insert (.inr rfl)

end Due

end Waiters

end RTLKIM

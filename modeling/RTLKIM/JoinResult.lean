import RTLKIM.SchedulerSpec
import RTLKIM.Lib.Run

/-!
# What a join returns

When `sched_wait_thread` returns to the thread that has called it for another, and what it is to have
done by then.
-/

namespace RTLKIM

namespace Sched

/-- A thread is waited for by one thread at a time, and by none once it has been reclaimed. -/
def WaitsAlone (s : Sched) : SchedEv → Prop
  | .call _ _ (.wait (some x)) => s.freed x = false ∧ ∀ j < s.created, (s.pc j).target ≠ some x
  | _ => True

instance (s : Sched) : ∀ e, Decidable (s.WaitsAlone e)
  | .call _ _ (.wait (some _)) => inferInstanceAs (Decidable (_ ∧ _))
  | .call _ _ (.wait none) | .call _ _ (.create _ _ _) | .call _ _ (.sleep _)
  | .call _ _ (.lock _ _) | .call _ _ (.unlock _ _ _) | .call _ _ (.setPriority _)
  | .call _ _ (.setCause _) | .call _ _ .schedule | .call _ _ (.exit _)
  | .initAp _ | .stmt _ _ | .timer _ _ => instDecidableTrue

def JoinsAlone (s : Sched) (e : SchedEv) : Prop := s.JoinsInTime e ∧ s.WaitsAlone e

instance (s : Sched) (e : SchedEv) : Decidable (s.JoinsAlone e) :=
  inferInstanceAs (Decidable (_ ∧ _))

/-- A statement of `j` ends its `sched_wait_thread` of `x`. -/
def WaitEnds (s : Sched) (j x : ℕ) (s' : Sched) : Prop :=
  ∃ c now, s.activeThread c = some j ∧ s.step (.stmt c now) = some s'
    ∧ (s.pc j).target = some x ∧ s'.pc j = .run

/-- What a `sched_wait_thread` of `x` by `j` that ends between `s` and `s'` is to have done, where `x`
has terminated by `s₁`: it returns what `x` has terminated with, and reclaims `x`, which has not been
before and is not again. -/
structure Delivers (s₁ : Sched) (j x : ℕ) (s s' : Sched) : Prop where
  ret : s'.ret j = ⟨.noErr, some (s₁.thread x).retVal, some (s₁.thread x).returnCause⟩
  first : s.freed x = false
  reclaimed : s'.freed x = true
  last : ∀ s'', Reach step JoinsAlone s' s'' → ∀ e, ¬ s''.Cleans x e

end Sched

end RTLKIM

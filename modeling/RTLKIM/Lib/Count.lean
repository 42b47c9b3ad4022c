import Mathlib.Algebra.BigOperators.Group.Finset.Basic
import Mathlib.Data.Fintype.Basic

/-!
# How many threads are somewhere

The number of threads whose place is of a kind, and how it changes when one of them moves.
-/

namespace RTLKIM

variable {τ π : Type*} [Fintype τ]

/-- How many threads are at a place that `f` holds of. -/
def count (f : π → Bool) (pc : τ → π) : ℕ := ∑ u, (f (pc u)).toNat

theorem count_eq_zero {f : π → Bool} {pc : τ → π} (h : ∀ u, f (pc u) = false) : count f pc = 0 := by
  unfold count
  refine Finset.sum_eq_zero fun u _ => ?_
  rw [h u]
  rfl

variable [DecidableEq τ]

theorem count_update (f : π → Bool) (pc : τ → π) (t : τ) (p : π) :
    count f (Function.update pc t p) + (f (pc t)).toNat = count f pc + (f p).toNat := by
  unfold count
  rw [← Finset.add_sum_erase Finset.univ _ (Finset.mem_univ t),
    ← Finset.add_sum_erase Finset.univ (fun u => (f (pc u)).toNat) (Finset.mem_univ t),
    Function.update_self]
  have hrest : ∑ u ∈ Finset.univ.erase t, (f (Function.update pc t p u)).toNat
      = ∑ u ∈ Finset.univ.erase t, (f (pc u)).toNat := by
    refine Finset.sum_congr rfl fun u hu => ?_
    rw [Function.update_of_ne (Finset.ne_of_mem_erase hu)]
  omega

end RTLKIM

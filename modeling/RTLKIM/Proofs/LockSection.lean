import Mathlib.Algebra.Order.Ring.Nat
import Mathlib.Tactic.SplitIfs
import RTLKIM.LockSection

/-!
# What a section does to the lock and the interrupts

`ENTER_CRITICAL` saves the interrupt state and makes the CPU the owner (`enter_spec`), and
`EXIT_CRITICAL` always frees `value`, so two sections one in the other leave the lock as they found
it only if `value` was `0` before.
-/

namespace RTLKIM

namespace CritState

variable {s k : CritState} {x : Bool}

theorem disable_eq (s : CritState) :
    s.kernelInterruptDisable = (s.ints, { s with ints := false }) := by
  unfold kernelInterruptDisable kernelInterruptGetState
  rcases s with ⟨c, b, _ | _, l⟩
  · rfl
  · rfl

theorem otherSection_eq (s : CritState) : s.otherSection = s := by
  unfold otherSection kernelInterruptRestore
  rw [disable_eq]
  rcases s with ⟨c, b, _ | _, l⟩
  · rfl
  · rfl

/-- After `ENTER_CRITICAL` interrupts are off, and with more than one CPU the lock is the CPU's. -/
structure Entered (s : CritState) (x : Bool) (k : CritState) : Prop where
  saved : x = s.ints
  cpuId : k.cpuId = s.cpuId
  booted : k.booted = s.booted
  ints : k.ints = false
  alone : k.booted ≤ 1 → k.lock = s.lock
  tid : 1 < k.booted → k.lock.currentTid = s.cpuId
  nesting : 1 < k.booted → k.lock.nesting = s.lock.nesting + 1

theorem enter_spec (h : s.enterCritical = some (x, k)) : s.Entered x k := by
  unfold enterCritical at h
  rw [disable_eq] at h
  simp only at h
  split_ifs at h with h1 h2 h3
  · cases h
    exact ⟨rfl, rfl, rfl, rfl, fun hb => absurd h1 (by simpa [own] using hb), fun _ => rfl,
      fun _ => rfl⟩
  · cases h
    exact ⟨rfl, rfl, rfl, rfl, fun hb => absurd h1 (by simpa [own] using hb), fun _ => rfl,
      fun _ => rfl⟩
  · cases h
    exact ⟨rfl, rfl, rfl, rfl, fun _ => rfl, fun hb => absurd hb h1, fun hb => absurd hb h1⟩

/-- What `EXIT_CRITICAL` leaves. -/
theorem exit_eq (k : CritState) (x : Bool) : k.exitCritical x = ⟨k.cpuId, k.booted, x || k.ints,
    if 1 < k.booted then ⟨0, if k.lock.nesting - 1 = 0 then -1 else k.lock.currentTid,
      k.lock.nesting - 1⟩ else k.lock⟩ := by
  unfold exitCritical kernelInterruptRestore
  rcases x with _ | _
  all_goals
    by_cases hb : 1 < k.booted
    · simp [hb]
    · simp [hb]

/-- One section. -/
theorem exit_enter (E : s.Entered x k) : k.exitCritical x = ⟨s.cpuId, s.booted, s.ints,
    if 1 < s.booted then ⟨0, if s.lock.nesting = 0 then -1 else s.cpuId, s.lock.nesting⟩
    else s.lock⟩ := by
  rw [exit_eq, E.cpuId, E.ints, E.saved, E.booted, Bool.or_false]
  by_cases hb : 1 < s.booted
  · have hb' : 1 < k.booted := E.booted ▸ hb
    rw [if_pos hb, if_pos hb, E.nesting hb', E.tid hb', UInt32.add_sub_cancel]
  · have hb' : k.booted ≤ 1 := E.booted ▸ not_lt.1 hb
    rw [if_neg hb, if_neg hb, E.alone hb']

/-- A section that has entered another and left it, before its own `EXIT_CRITICAL`. -/
theorem inner_exit {k' : CritState} {x' : Bool} (E : s.Entered x k) (E' : k.Entered x' k') :
    k'.exitCritical x' = ⟨s.cpuId, s.booted, false,
      if 1 < s.booted then ⟨0, if s.lock.nesting + 1 = 0 then -1 else s.cpuId, s.lock.nesting + 1⟩
      else s.lock⟩ := by
  rw [exit_enter E', E.cpuId, E.booted, E.ints]
  by_cases hb : 1 < s.booted
  · rw [if_pos hb, if_pos hb, E.nesting (E.booted ▸ hb)]
  · rw [if_neg hb, if_neg hb, E.alone (E.booted ▸ not_lt.1 hb)]

/-- Two sections one in the other. -/
theorem outer_exit {k' : CritState} {x' : Bool} (E : s.Entered x k) (E' : k.Entered x' k') :
    (k'.exitCritical x').exitCritical x = ⟨s.cpuId, s.booted, s.ints,
      if 1 < s.booted then ⟨0, if s.lock.nesting = 0 ∨ s.lock.nesting + 1 = 0 then -1 else s.cpuId,
        s.lock.nesting⟩ else s.lock⟩ := by
  rw [inner_exit E E', exit_eq, E.saved, Bool.or_false]
  by_cases hb : 1 < s.booted
  · simp only [if_pos hb, UInt32.add_sub_cancel]
    by_cases h0 : s.lock.nesting = 0
    · simp [h0]
    · simp [h0]
  · simp only [if_neg hb]

/-- The lock after a balanced call is the one before. -/
theorem eq_iff {v : LockFields} : (⟨s.cpuId, s.booted, s.ints, if 1 < s.booted then v
    else s.lock⟩ : CritState) = s ↔ s.booted ≤ 1 ∨ v = s.lock := by
  rcases s with ⟨c, b, i, l⟩
  by_cases hb : 1 < b
  · simp [hb]
  · simp [hb, not_lt.1 hb]

end CritState

end RTLKIM

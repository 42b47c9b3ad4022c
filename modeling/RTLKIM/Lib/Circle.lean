import Mathlib.Data.Nat.ModEq
import Mathlib.Logic.Function.Basic

/-!
# Circular arrays

The values of a list in an array read around, from the slot `bot` on. A list shorter than the array
takes one more value at its end, and gives up its first.
-/

namespace RTLKIM

variable {α : Type*}

/-- The array `c` of `n` slots holds the list from the slot `bot` on. -/
structure Circle (n : ℕ) (c : ℕ → α) (bot : ℕ) (l : List α) : Prop where
  le : l.length ≤ n
  slot : ∀ i v, l[i]? = some v → c ((bot + i) % n) = v

namespace Circle

variable {n bot : ℕ} {c : ℕ → α} {l : List α} {v : α}

theorem nil : Circle n c bot [] := ⟨Nat.zero_le n, by simp⟩

/-- Circle less than a turn apart are not one. -/
theorem mod_ne {i j : ℕ} (hij : i < j) (hj : j < n) : (bot + i) % n ≠ (bot + j) % n := by
  intro h
  have h1 : i ≡ j [MOD n] := Nat.ModEq.add_left_cancel' bot h
  rw [Nat.ModEq, Nat.mod_eq_of_lt (by omega), Nat.mod_eq_of_lt hj] at h1
  omega

theorem push (h : Circle n c bot l) (hl : l.length < n) :
    Circle n (Function.update c ((bot + l.length) % n) v) bot (l ++ [v]) := by
  refine ⟨by rw [List.length_append]; exact hl, fun i w hi => ?_⟩
  have hlt : i < l.length + 1 := by
    have := (List.getElem?_eq_some_iff.1 hi).1
    simpa using this
  rcases Nat.lt_succ_iff_lt_or_eq.1 hlt with hi' | rfl
  · rw [List.getElem?_append_left hi'] at hi
    rw [Function.update_of_ne (mod_ne hi' hl)]
    exact h.slot i w hi
  · rw [List.getElem?_concat_length] at hi
    rw [Function.update_self]
    exact Option.some_inj.1 hi

theorem head (h : Circle n c bot (v :: l)) : c (bot % n) = v := h.slot 0 v rfl

theorem tail (h : Circle n c bot (v :: l)) : Circle n c ((bot + 1) % n) l := by
  refine ⟨(Nat.le_succ _).trans h.le, fun i w hi => ?_⟩
  have := h.slot (i + 1) w (by rw [List.getElem?_cons_succ]; exact hi)
  rw [Nat.mod_add_mod, show bot + 1 + i = bot + (i + 1) by omega]
  exact this

end Circle

end RTLKIM

import Mathlib.Data.List.TakeWhile
import Mathlib.Data.List.Pairwise
import Mathlib.Data.Nat.Basic

/-!
# Lists in the order of a key

An item put in behind all items that `p` holds of leaves a list in order, if it is in order with
those before and with those behind; in a list whose keys go down, those behind the greater ones are
not greater.
-/

namespace RTLKIM

variable {α : Type*}

theorem mem_of_mem_dropWhile {p : α → Bool} {x : α} {l : List α} (h : x ∈ l.dropWhile p) : x ∈ l :=
  (List.dropWhile_sublist p).subset h

theorem pairwise_insert {R : α → α → Prop} {p : α → Bool} {x : α} {l : List α} (h : l.Pairwise R)
    (hbefore : ∀ a ∈ l, p a = true → R a x) (hafter : ∀ b ∈ l.dropWhile p, R x b) :
    (l.takeWhile p ++ x :: l.dropWhile p).Pairwise R := by
  rw [← List.takeWhile_append_dropWhile (p := p) (l := l)] at h
  obtain ⟨htake, hdrop, hcross⟩ := List.pairwise_append.1 h
  rw [List.pairwise_append, List.pairwise_cons]
  refine ⟨htake, ⟨hafter, hdrop⟩, fun a ha b hb => ?_⟩
  rcases List.mem_cons.1 hb with rfl | hb
  · exact hbefore a ((List.takeWhile_prefix p).subset ha) (List.mem_takeWhile_imp ha)
  · exact hcross a ha b hb

/-- The first item that was not passed has no greater key, so none behind it has. -/
theorem le_of_mem_dropWhile {f : α → ℕ} {k : ℕ} {b : α} {l : List α}
    (h : l.Pairwise fun a b => f b ≤ f a) (hb : b ∈ l.dropWhile fun n => k < f n) : f b ≤ k := by
  have hdrop := h.sublist (List.dropWhile_sublist fun n => decide (k < f n))
  have hstop := List.head?_dropWhile_not (fun n => decide (k < f n)) l
  rcases hv : l.dropWhile (fun n => decide (k < f n)) with _ | ⟨c, v⟩
  · rw [hv] at hb
    cases hb
  · rw [hv] at hb hdrop hstop
    have hc : f c ≤ k := by simpa using hstop
    rcases List.mem_cons.1 hb with rfl | hb
    · exact hc
    · exact ((List.pairwise_cons.1 hdrop).1 b hb).trans hc

end RTLKIM

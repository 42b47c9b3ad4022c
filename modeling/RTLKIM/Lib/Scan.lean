import RTLKIM.Lib.Dll
import Mathlib.Data.List.TakeWhile

/-!
# Walks along a linked list

`scan nx hit fuel cursor pre` follows `nx` from `cursor` to the first node that `hit` holds of, or
to `NULL`, and keeps the node before it. With more steps than the list has nodes it splits the list
there (`Sll.scan_eq`).
-/

namespace RTLKIM

variable {nx : ℕ → ℕ} {hit : ℕ → Prop} [DecidablePred hit] {p : ℕ} {l : List ℕ}

/-- The first node from `cursor` on that `hit` holds of, or `NULL`, and the node before it. -/
def scan (nx : ℕ → ℕ) (hit : ℕ → Prop) [DecidablePred hit] : ℕ → ℕ → ℕ → Option (ℕ × ℕ)
  | 0, _, _ => none
  | fuel + 1, cursor, pre =>
    if cursor = 0 ∨ hit cursor then some (cursor, pre) else scan nx hit fuel (nx cursor) cursor

theorem scan_zero (fuel pre : ℕ) : scan nx hit (fuel + 1) 0 pre = some (0, pre) := by
  rw [scan, if_pos (.inl rfl)]

theorem scan_hit {n : ℕ} (fuel pre : ℕ) (h : hit n) :
    scan nx hit (fuel + 1) n pre = some (n, pre) := by
  rw [scan, if_pos (.inr h)]

theorem scan_next {n : ℕ} (fuel pre : ℕ) (h0 : n ≠ 0) (h : ¬ hit n) :
    scan nx hit (fuel + 1) n pre = scan nx hit fuel (nx n) n := by
  rw [scan, if_neg (by tauto)]

namespace Sll

variable (hit)

/-- The walk from a node of the list on, where `w` is what it has passed. -/
theorem scan_from (h : Sll nx p l) : ∀ (fuel : ℕ) (w r : List ℕ) (pre : ℕ), l = w ++ r →
    r.length < fuel → ∃ u v, r = u ++ v ∧ (∀ n ∈ u, ¬ hit n) ∧ (∀ n ∈ v.head?, hit n)
      ∧ scan nx hit fuel (r.headD 0) pre = some (v.headD 0, if u = [] then pre else lastD u)
  | 0, _, _, _, _, hf => by omega
  | fuel + 1, w, [], pre, _, _ => ⟨[], [], rfl, by simp, by simp, by simp [scan_zero]⟩
  | fuel + 1, w, a :: r, pre, hl, hf => by
    have ha : a ≠ 0 := h.ne_zero (by simp [hl])
    by_cases hh : hit a
    · exact ⟨[], a :: r, rfl, by simp, by simpa using hh, by simp [scan_hit _ _ hh]⟩
    · have hnx : nx a = r.headD 0 := (hl ▸ h : Sll nx p (w ++ a :: r)).next_of_split
      obtain ⟨u, v, hr, hu, hv, hs⟩ := h.scan_from fuel (w ++ [a]) r a (by simp [hl])
        (by simpa using hf)
      refine ⟨a :: u, v, by simp [hr], by simpa [hh] using hu, hv, ?_⟩
      rw [List.headD_cons, scan_next _ _ ha hh, hnx, hs, if_neg (List.cons_ne_nil _ _)]
      rcases List.eq_nil_or_concat u with rfl | ⟨u, b, rfl⟩
      · rfl
      · simp [lastD, List.getLast?_cons]

/-- The walk from the head splits the list at the first node that `hit` holds of. -/
theorem scan_eq (h : Sll nx p l) {fuel : ℕ} (hf : l.length < fuel) : ∃ u v, l = u ++ v
    ∧ (∀ n ∈ u, ¬ hit n) ∧ (∀ n ∈ v.head?, hit n)
    ∧ scan nx hit fuel p p = some (v.headD 0, if u = [] then p else lastD u) := by
  obtain ⟨u, v, hl, hu, hv, hs⟩ := h.scan_from hit fuel [] l p rfl hf
  rw [← h.head] at hs
  exact ⟨u, v, hl, hu, hv, hs⟩

end Sll

end RTLKIM

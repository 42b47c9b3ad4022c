import Mathlib.Data.List.Count
import Mathlib.Data.List.Perm.Basic

/-!
# Items kept in tables

A family of lists where an item stands in one place at most. `Located tbl x loc` says which; putting
an item in a list or taking it out moves that item and no other.
-/

namespace RTLKIM

variable {κ α : Type*} [DecidableEq κ] [DecidableEq α]

/-- `x` stands once in the table `loc` names and in no other. -/
def Located (tbl : κ → List α) (x : α) (loc : Option κ) : Prop :=
  ∀ q, (tbl q).count x = if loc = some q then 1 else 0

namespace Located

variable {tbl : κ → List α} {x y : α} {loc : Option κ} {q : κ} {l : List α}

theorem mem_iff (h : Located tbl x loc) : x ∈ tbl q ↔ loc = some q := by
  rw [← List.count_pos_iff, h q]
  split_ifs with hq <;> simp [hq]

theorem not_mem (h : Located tbl x none) (q : κ) : x ∉ tbl q := by simp [h.mem_iff]

theorem eq_of_mem (h : Located tbl x loc) (hq : x ∈ tbl q) : loc = some q := h.mem_iff.1 hq

/-- A list replaced by one that holds `x` as often. -/
theorem of_count (h : Located tbl x loc) (hl : l.count x = (tbl q).count x) :
    Located (Function.update tbl q l) x loc := by
  intro q'
  by_cases hq : q' = q
  · subst hq
    rw [Function.update_self, hl, h]
  · rw [Function.update_of_ne hq, h]

theorem insert_other (h : Located tbl x loc) (hne : x ≠ y) (hl : l.Perm (y :: tbl q)) :
    Located (Function.update tbl q l) x loc :=
  h.of_count (by rw [hl.count_eq, List.count_cons_of_ne hne.symm])

theorem remove_other (h : Located tbl x loc) (hne : x ≠ y) (hl : (tbl q).Perm (y :: l)) :
    Located (Function.update tbl q l) x loc :=
  h.of_count (by rw [hl.count_eq, List.count_cons_of_ne hne.symm])

theorem insert_self (h : Located tbl x none) (hl : l.Perm (x :: tbl q)) :
    Located (Function.update tbl q l) x (some q) := by
  intro q'
  by_cases hq : q' = q
  · subst hq
    rw [Function.update_self, hl.count_eq, List.count_cons_self, h]
    simp
  · rw [Function.update_of_ne hq, h]
    simp [Ne.symm hq]

theorem remove_self (h : Located tbl x (some q)) (hl : (tbl q).Perm (x :: l)) :
    Located (Function.update tbl q l) x none := by
  intro q'
  by_cases hq : q' = q
  · subst hq
    have := h q'
    rw [hl.count_eq, List.count_cons_self, if_pos rfl] at this
    rw [Function.update_self]
    simpa using this
  · rw [Function.update_of_ne hq, h]
    simp [Ne.symm hq]

end Located

omit [DecidableEq α] in
/-- The list without its last item. -/
theorem perm_cons_dropLast {l : List α} {x : α} (h : l.getLast? = some x) :
    l.Perm (x :: l.dropLast) := by
  obtain ⟨l', rfl⟩ := List.getLast?_eq_some_iff.1 h
  rw [List.dropLast_concat]
  exact List.perm_append_singleton x l'

end RTLKIM

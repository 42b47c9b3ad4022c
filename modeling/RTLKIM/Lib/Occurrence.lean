import Mathlib.Data.List.Basic
import Mathlib.Data.List.Infix

/-!
# The first occurrence in a list

A list occurs at an offset of another one when it is a prefix of what is there. A search passes offsets
where it does not occur, and ends at one where it does, or when no more fit.
-/

namespace RTLKIM

variable {α : Type*} {y x : List α}

/-- `x` occurs in `y` at `j`. -/
def OccursAt (y x : List α) (j : ℕ) : Prop := x <+: y.drop j

/-- The least offset at which `x` occurs, and none when there is no such offset. -/
def FirstOccurrence (y x : List α) : Option ℕ → Prop
  | some j => OccursAt y x j ∧ ∀ i < j, ¬ OccursAt y x i
  | none => ∀ i, ¬ OccursAt y x i

/-- `x` occurs at no offset before `j`. -/
def NoneBefore (y x : List α) (j : ℕ) : Prop := ∀ i < j, ¬ OccursAt y x i

theorem occursAt_cons {a : α} {j : ℕ} : OccursAt y (a :: x) j ↔ y[j]? = some a ∧ OccursAt y x (j + 1) := by
  unfold OccursAt
  rw [List.cons_prefix_iff, ← List.tail_drop]
  constructor
  · rintro ⟨l, hl, hx⟩
    rw [← List.head?_drop, hl]
    exact ⟨rfl, hx⟩
  · rintro ⟨ha, hx⟩
    rw [← List.head?_drop] at ha
    exact ⟨(y.drop j).tail, (List.cons_head?_tail ha).symm, hx⟩

/-- What occurs is within the list. -/
theorem OccursAt.le {j : ℕ} (h : OccursAt y x j) (hx : x ≠ []) : j + x.length ≤ y.length := by
  have hpos : 0 < x.length := List.length_pos_iff.2 hx
  have hle := List.IsPrefix.length_le h
  rw [List.length_drop] at hle
  omega

theorem noneBefore_zero : NoneBefore y x 0 := fun _ hi => absurd hi (Nat.not_lt_zero _)

theorem NoneBefore.succ {j : ℕ} (h : NoneBefore y x j) (hj : ¬ OccursAt y x j) :
    NoneBefore y x (j + 1) := by
  intro i hi
  rcases Nat.lt_succ_iff_lt_or_eq.1 hi with hlt | rfl
  · exact h i hlt
  · exact hj

/-- No more offsets fit. -/
theorem NoneBefore.firstOccurrence_none {j : ℕ} (h : NoneBefore y x j) (hx : x ≠ [])
    (hj : y.length < j + x.length) : FirstOccurrence y x none := by
  intro i hi
  have hle := hi.le hx
  exact h i (by omega) hi

theorem NoneBefore.firstOccurrence_some {j : ℕ} (h : NoneBefore y x j) (hj : OccursAt y x j) :
    FirstOccurrence y x (some j) := ⟨hj, h⟩

theorem FirstOccurrence.unique : ∀ {r r' : Option ℕ}, FirstOccurrence y x r →
    FirstOccurrence y x r' → r = r'
  | some j, some j', h, h' => by
    rcases Nat.lt_trichotomy j j' with hlt | heq | hlt
    · exact absurd h.1 (h'.2 j hlt)
    · rw [heq]
    · exact absurd h'.1 (h.2 j' hlt)
  | some j, none, h, h' => absurd h.1 (h' j)
  | none, some j', h, h' => absurd h'.1 (h j')
  | none, none, _, _ => rfl

end RTLKIM

import Mathlib.Data.List.Basic

/-!
# Buffers of characters

A buffer is the list of the characters of an array, and there is no writing past its end. Its text is
what is before the first NUL, as functions on strings take it.
-/

namespace RTLKIM

abbrev nul : Char := Char.ofNat 0

/-- `buf[i] = c`. -/
def store (buf : List Char) (i : ℕ) (c : Char) : Option (List Char) :=
  if i < buf.length then some (buf.set i c) else none

/-- The string in a buffer. -/
def text (buf : List Char) : List Char := buf.takeWhile (· ≠ nul)

/-- The character after those at the start of a buffer. -/
theorem store_next (l : List Char) (x c : Char) (rest : List Char) :
    store (l ++ x :: rest) l.length c = some (l ++ c :: rest) := by
  unfold store
  rw [if_pos (by simp), List.set_append_right _ _ (Nat.le_refl _), Nat.sub_self]
  rfl

theorem text_append {l : List Char} (h : nul ∉ l) (rest : List Char) :
    text (l ++ nul :: rest) = l := by
  unfold text
  rw [List.takeWhile_append_of_pos, List.takeWhile_cons_of_neg (by simp), List.append_nil]
  intro c hc
  simpa using fun h' : c = nul => h (h' ▸ hc)

end RTLKIM

import Mathlib.Data.List.Nodup
import Mathlib.Logic.Function.Basic

/-!
# Lists with no element in common

A family of lists, some of which may not be there, in which every element is once at most: in one
list, and once in it. An element is put in one list when it is in none, and moved by taking it out
of the list it is in first.
-/

namespace RTLKIM

variable {ι α : Type*} {f g : ι → Option (List α)} {i : ι} {l : List α} {x : α}

/-- Every element is in one list at most, and once in it. -/
structure Parted (f : ι → Option (List α)) : Prop where
  nodup : ∀ i l, f i = some l → l.Nodup
  apart : ∀ i j l m x, f i = some l → f j = some m → x ∈ l → x ∈ m → i = j

namespace Parted

/-- Each list is made shorter, or is there and empty. -/
theorem sub (h : Parted f) (hg : ∀ i m, g i = some m → m = [] ∨ ∃ l, f i = some l ∧ m.Sublist l) :
    Parted g := by
  refine ⟨fun i m hm => ?_, fun i j l m x hl hm hxl hxm => ?_⟩
  · rcases hg i m hm with rfl | ⟨l, hl, hs⟩
    · exact List.nodup_nil
    · exact (h.nodup i l hl).sublist hs
  · rcases hg i l hl with rfl | ⟨l', hl', hs⟩
    · simp at hxl
    rcases hg j m hm with rfl | ⟨m', hm', hs'⟩
    · simp at hxm
    exact h.apart i j l' m' x hl' hm' (hs.subset hxl) (hs'.subset hxm)

variable [DecidableEq ι]

/-- An element that is in no list is put in one. -/
theorem cons (h : Parted f) (hl : f i = some l) (hx : ∀ j m, f j = some m → x ∉ m) :
    Parted (Function.update f i (some (x :: l))) := by
  -- a list after, as one before with `x` in front or not
  have hold : ∀ j m y, Function.update f i (some (x :: l)) j = some m → y ∈ m →
      y = x ∧ j = i ∨ y ≠ x ∧ ∃ m', f j = some m' ∧ y ∈ m' := by
    intro j m y hj hy
    by_cases hji : j = i
    · subst hji
      rw [Function.update_self, Option.some_inj] at hj
      subst hj
      by_cases hyx : y = x
      · exact .inl ⟨hyx, rfl⟩
      · exact .inr ⟨hyx, l, hl, (List.mem_cons.1 hy).resolve_left hyx⟩
    · rw [Function.update_of_ne hji] at hj
      refine .inr ⟨?_, m, hj, hy⟩
      rintro rfl
      exact hx j m hj hy
  refine ⟨fun j m hm => ?_, fun j j' m m' y hm hm' hy hy' => ?_⟩
  · by_cases hji : j = i
    · subst hji
      rw [Function.update_self, Option.some_inj] at hm
      subst hm
      exact List.nodup_cons.2 ⟨hx j l hl, h.nodup j l hl⟩
    · rw [Function.update_of_ne hji] at hm
      exact h.nodup j m hm
  · rcases hold j m y hm hy with ⟨hyx, rfl⟩ | ⟨hyx, a, ha, hya⟩ <;>
      rcases hold j' m' y hm' hy' with ⟨hyx', rfl⟩ | ⟨hyx', b, hb, hyb⟩
    · rfl
    · exact absurd hyx hyx'
    · exact absurd hyx' hyx
    · exact h.apart j j' a b y ha hb hya hyb

/-- The last element of a list is in none once it is taken from it. -/
theorem not_mem_dropLast (h : Parted f) (hl : f i = some l) (hx : l.getLast? = some x) {j : ι}
    {m : List α} (hm : Function.update f i (some l.dropLast) j = some m) : x ∉ m := by
  have hlx : l.dropLast ++ [x] = l := List.dropLast_append_getLast? x hx
  by_cases hji : j = i
  · subst hji
    rw [Function.update_self, Option.some_inj] at hm
    subst hm
    intro hmem
    have hn := h.nodup j l hl
    rw [← hlx] at hn
    exact (List.disjoint_of_nodup_append hn) hmem (by simp)
  · rw [Function.update_of_ne hji] at hm
    intro hmem
    exact hji (h.apart j i m l x hm hl hmem (List.mem_of_getLast? hx))

end Parted

end RTLKIM

import Mathlib.Data.List.Pairwise
import Mathlib.Order.Interval.Set.Disjoint
import Mathlib.Order.BourbakiWitt
import Mathlib.Order.CompletePartialOrder

/-!
# Lists of half-open spans, one after another

Each element of a list has a span `[lo a, hi a)`. When every span of the list ends before the next
one begins (`InOrder`), a new span is clear of all of them as soon as it is clear of the two it
comes between (`InOrder.clear_iff`), and put between them it leaves the list in order.
-/

namespace RTLKIM

variable {ι α : Type*} [LinearOrder α] {lo hi : ι → α} {l u v : List ι} {a b : α}

/-- No span is empty, and each ends before the next begins. -/
structure InOrder (lo hi : ι → α) (l : List ι) : Prop where
  pos : ∀ i ∈ l, lo i < hi i
  apart : l.Pairwise fun i j => hi i ≤ lo j

namespace InOrder

theorem nil : InOrder lo hi [] := ⟨by simp, .nil⟩

theorem congr {lo' hi' : ι → α} (h : InOrder lo hi l) (hlo : ∀ i ∈ l, lo' i = lo i)
    (hhi : ∀ i ∈ l, hi' i = hi i) : InOrder lo' hi' l := by
  refine ⟨fun i hi => ?_, h.apart.imp_of_mem fun hi hj hij => ?_⟩
  · rw [hlo i hi, hhi i hi]
    exact h.pos i hi
  · rwa [hhi _ hi, hlo _ hj]

theorem sorted (h : InOrder lo hi l) : l.Pairwise fun i j => lo i < lo j :=
  h.apart.imp_of_mem fun hi _ hij => (h.pos _ hi).trans_le hij

theorem disjoint (h : InOrder lo hi l) :
    l.Pairwise fun i j => Disjoint (Set.Ico (lo i) (hi i)) (Set.Ico (lo j) (hi j)) := by
  refine h.apart.imp fun hij => Set.disjoint_left.2 fun x hx hy => ?_
  exact absurd (hx.2.trans_le hij) (not_lt.2 hy.1)

theorem left (h : InOrder lo hi (u ++ v)) : InOrder lo hi u :=
  ⟨fun i hi => h.pos i (List.mem_append_left _ hi), (List.pairwise_append.1 h.apart).1⟩

/-- The last of a list in order ends last. -/
theorem hi_le_of_last (h : InOrder lo hi u) (hu : ∀ i ∈ u.getLast?, hi i ≤ a) :
    ∀ i ∈ u, hi i ≤ a := by
  rcases List.eq_nil_or_concat u with rfl | ⟨w, j, rfl⟩
  · simp
  · rw [List.concat_eq_append] at *
    have hj : hi j ≤ a := hu j (by simp)
    intro i hi'
    rcases List.mem_append.1 hi' with hiw | hij
    · have hlt := (List.pairwise_append.1 h.apart).2.2 i hiw j (by simp)
      exact hlt.trans ((h.pos j (by simp)).le.trans hj)
    · rw [List.mem_singleton.1 hij]
      exact hj

/-- The first of a list in order begins first. -/
theorem le_lo_of_head (h : InOrder lo hi v) (hv : ∀ i ∈ v.head?, a ≤ lo i) : ∀ i ∈ v, a ≤ lo i := by
  rcases v with _ | ⟨j, w⟩
  · simp
  · have hj : a ≤ lo j := hv j (by simp)
    intro i hi'
    rcases List.mem_cons.1 hi' with rfl | hiw
    · exact hj
    · exact hj.trans ((h.pos j (by simp)).le.trans ((List.pairwise_cons.1 h.apart).1 i hiw))

theorem right (h : InOrder lo hi (u ++ v)) : InOrder lo hi v :=
  ⟨fun i hi => h.pos i (List.mem_append_right _ hi), (List.pairwise_append.1 h.apart).2.1⟩

/-- A span is clear of all when it is clear of the two it comes between. -/
theorem clear_iff (h : InOrder lo hi (u ++ v)) (hab : a < b) (hu : ∀ i ∈ u, lo i ≤ a)
    (hv : ∀ i ∈ v.head?, a < lo i) :
    (∀ i ∈ u ++ v, Disjoint (Set.Ico a b) (Set.Ico (lo i) (hi i)))
      ↔ (∀ i ∈ u.getLast?, hi i ≤ a) ∧ ∀ i ∈ v.head?, b ≤ lo i := by
  constructor
  · intro hd
    refine ⟨fun i hi' => ?_, fun i hi' => ?_⟩
    · have hmem : i ∈ u := List.mem_of_mem_getLast? hi'
      by_contra hlt
      exact Set.disjoint_left.1 (hd i (List.mem_append_left _ hmem)) (Set.left_mem_Ico.2 hab)
        ⟨hu i hmem, not_le.1 hlt⟩
    · have hmem : i ∈ v := List.mem_of_mem_head? hi'
      by_contra hlt
      exact Set.disjoint_left.1 (hd i (List.mem_append_right _ hmem))
        ⟨(hv i hi').le, not_le.1 hlt⟩ (Set.left_mem_Ico.2 (h.pos i (List.mem_append_right _ hmem)))
  · rintro ⟨h1, h2⟩ i hi'
    rw [Set.disjoint_left]
    intro x hx hy
    rcases List.mem_append.1 hi' with hiu | hiv
    · exact absurd (hy.2.trans_le (h.left.hi_le_of_last h1 i hiu)) (not_lt.2 hx.1)
    · exact absurd (hx.2.trans_le (h.right.le_lo_of_head h2 i hiv)) (not_lt.2 hy.1)

/-- A span put between the two it comes between. -/
theorem insert {n : ι} (h : InOrder lo hi (u ++ v)) (hn : lo n < hi n)
    (h1 : ∀ i ∈ u.getLast?, hi i ≤ lo n) (h2 : ∀ i ∈ v.head?, hi n ≤ lo i) :
    InOrder lo hi (u ++ n :: v) := by
  have hu := h.left.hi_le_of_last h1
  have hv := h.right.le_lo_of_head h2
  obtain ⟨pu, pv, puv⟩ := List.pairwise_append.1 h.apart
  refine ⟨fun i hi' => ?_, List.pairwise_append.2 ⟨pu, List.pairwise_cons.2 ⟨hv, pv⟩, ?_⟩⟩
  · rcases List.mem_append.1 hi' with hiu | hiv
    · exact h.pos i (List.mem_append_left _ hiu)
    · rcases List.mem_cons.1 hiv with rfl | hiv
      · exact hn
      · exact h.pos i (List.mem_append_right _ hiv)
  · intro i hiu j hj
    rcases List.mem_cons.1 hj with rfl | hjv
    · exact hu i hiu
    · exact puv i hiu j hjv

/-- A point is in one span at most. -/
theorem eq_of_mem (h : InOrder lo hi l) {i j : ι} {x : α} (hi' : i ∈ l) (hj : j ∈ l)
    (hx : x ∈ Set.Ico (lo i) (hi i)) (hy : x ∈ Set.Ico (lo j) (hi j)) : i = j := by
  by_contra hne
  have : Std.Symm fun i j => Disjoint (Set.Ico (lo i) (hi i)) (Set.Ico (lo j) (hi j)) :=
    ⟨fun _ _ hd => hd.symm⟩
  exact Set.disjoint_left.1 (h.disjoint.forall hi' hj hne) hx hy

end InOrder

end RTLKIM

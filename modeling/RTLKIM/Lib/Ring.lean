import Mathlib.Data.List.Cycle
import Mathlib.Data.List.Chain

/-!
# Circular doubly linked lists in flat memory

A memory is a map from addresses to words. A node at `a` keeps the address of the next node at
`a` and that of the previous one at `a + w`. `Ring w m l` says the nodes of `l`, read around, are
linked both ways; it is a `Cycle.Chain`, so where the reading starts does not matter
(`Ring.rotate`).

A ring is edited at one seam: `Ring.insert` puts a node before the first, `Ring.unlink` takes the
first node out. Both ask only for what the new memory reads at the seam and that the other links
are kept; `Ring.congr` moves a ring to a memory that keeps all of them.
-/

namespace RTLKIM

variable {w : ℕ} {m m' : ℕ → ℕ}

/-- `b` is the node after `a`, and `a` the node before `b`. -/
def Link (w : ℕ) (m : ℕ → ℕ) (a b : ℕ) : Prop := m a = b ∧ m (b + w) = a

/-- The nodes of `l`, read around, are linked both ways. -/
def Ring (w : ℕ) (m : ℕ → ℕ) (l : List ℕ) : Prop := Cycle.Chain (Link w m) (l : Cycle ℕ)

/-- The words the nodes of `l` are linked through. -/
def cells (w : ℕ) (l : List ℕ) : Set ℕ := {x | x ∈ l ∨ ∃ a ∈ l, x = a + w}

theorem mem_cells {l : List ℕ} {x : ℕ} : x ∈ cells w l ↔ x ∈ l ∨ ∃ a ∈ l, x = a + w := Iff.rfl

/-- No node's forward word is another's backward word. -/
def Spaced (w : ℕ) (l : List ℕ) : Prop := ∀ x ∈ l, ∀ y ∈ l, x ≠ y + w

theorem Spaced.mono {l l' : List ℕ} (h : Spaced w l) (hs : l' ⊆ l) : Spaced w l' :=
  fun x hx y hy => h x (hs hx) y (hs hy)

/-- A chain of links reads the forward word of all but its last node and the backward word of all
but its first. -/
theorem links_congr : ∀ {l : List ℕ}, (∀ x ∈ l.dropLast, m' x = m x) →
    (∀ x ∈ l.tail, m' (x + w) = m (x + w)) → List.IsChain (Link w m) l →
    List.IsChain (Link w m') l
  | [], _, _, _ => .nil
  | [_], _, _, _ => .singleton _
  | a :: b :: l, hn, hp, h => by
    rw [List.isChain_cons_cons] at h ⊢
    obtain ⟨⟨h1, h2⟩, h3⟩ := h
    refine ⟨⟨(hn a (by simp)).trans h1, (hp b (by simp)).trans h2⟩, ?_⟩
    exact links_congr (fun x hx => hn x (by simp [hx])) (fun x hx => hp x (by simp_all)) h3

namespace Ring

theorem cons_iff {a : ℕ} {t : List ℕ} :
    Ring w m (a :: t) ↔ List.IsChain (Link w m) (a :: (t ++ [a])) :=
  Cycle.chain_coe_cons _ _ _

theorem singleton_iff {a : ℕ} : Ring w m [a] ↔ m a = a ∧ m (a + w) = a := by
  simp [cons_iff, Link]

theorem rotate (l₁ l₂ : List ℕ) (h : Ring w m (l₁ ++ l₂)) : Ring w m (l₂ ++ l₁) := by
  unfold Ring at h ⊢
  rwa [← Cycle.coe_eq_coe.2 (List.isRotated_append : (l₁ ++ l₂) ~r (l₂ ++ l₁))]

theorem next_cons {a b : ℕ} {t : List ℕ} (h : Ring w m (a :: b :: t)) : m a = b := by
  rw [cons_iff, List.cons_append, List.isChain_cons_cons] at h
  exact h.1.1

/-- The node before the first of a ring is its last. -/
theorem prev_concat {a z : ℕ} {t : List ℕ} (h : Ring w m (a :: (t ++ [z]))) :
    m (a + w) = z := by
  rw [cons_iff, List.append_assoc, ← List.cons_append, List.isChain_append] at h
  have := h.2.1
  simp only [List.cons_append, List.nil_append, List.isChain_cons_cons] at this
  exact this.1.2

/-- Inside a ring, the nodes on both sides of a seam are linked. -/
theorem link_of_split {a b : ℕ} {u v : List ℕ} (h : Ring w m (u ++ a :: b :: v)) :
    m a = b ∧ m (b + w) = a := by
  have h := rotate _ _ h
  rw [List.cons_append, List.cons_append, cons_iff, List.cons_append,
    List.isChain_cons_cons] at h
  exact h.1

/-- The neighbours of a node of a longer ring are other nodes of it. -/
theorem neighbours_mem {a : ℕ} {t : List ℕ} (h : Ring w m (a :: t)) (ht : t ≠ []) :
    m a ∈ t ∧ m (a + w) ∈ t := by
  refine ⟨?_, ?_⟩
  · obtain ⟨b, u, rfl⟩ := List.exists_cons_of_ne_nil ht
    rw [h.next_cons]
    exact List.mem_cons_self
  · rcases List.eq_nil_or_concat t with h0 | ⟨u, z, rfl⟩
    · exact absurd h0 ht
    · rw [List.concat_eq_append] at h ⊢
      rw [h.prev_concat]
      simp

/-- Memories that link the same nodes agree on the words they are linked through. -/
theorem eq_on {l : List ℕ} (h : Ring w m l) (h' : Ring w m' l) : ∀ x ∈ cells w l, m x = m' x := by
  have key : ∀ a ∈ l, m a = m' a ∧ m (a + w) = m' (a + w) := by
    intro a ha
    obtain ⟨u, v, rfl⟩ := List.append_of_mem ha
    have h := rotate u (a :: v) h
    have h' := rotate u (a :: v) h'
    rw [List.cons_append] at h h'
    rcases List.eq_nil_or_concat (v ++ u) with h0 | ⟨t, z, h0⟩
    · rw [h0, singleton_iff] at h h'
      exact ⟨h.1.trans h'.1.symm, h.2.trans h'.2.symm⟩
    · rw [List.concat_eq_append] at h0
      rw [h0] at h h'
      refine ⟨?_, h.prev_concat.trans h'.prev_concat.symm⟩
      rcases t with _ | ⟨b, t⟩
      · exact h.next_cons.trans h'.next_cons.symm
      · exact h.next_cons.trans h'.next_cons.symm
  rintro x (hx | ⟨a, ha, rfl⟩)
  · exact (key x hx).1
  · exact (key a ha).2

theorem congr {l : List ℕ} (h : Ring w m l) (ha : ∀ x ∈ cells w l, m' x = m x) :
    Ring w m' l := by
  rcases l with _ | ⟨a, t⟩
  · exact Cycle.Chain.nil _
  · rw [cons_iff] at h ⊢
    refine links_congr (fun x hx => ha x (.inl ?_)) (fun x hx => ha _ (.inr ⟨x, ?_, rfl⟩)) h
    · rw [← List.cons_append, List.dropLast_concat] at hx
      exact hx
    · simpa [or_comm] using hx

/-- A node put before the first of a ring, if the new memory links it to the first and the last
and keeps the other links. -/
theorem insert {a n z : ℕ} {t : List ℕ} (h : Ring w m (a :: t)) (hnd : (a :: t).Nodup)
    (hz : m (a + w) = z) (h1 : m' z = n) (h2 : m' (n + w) = z) (h3 : m' n = a)
    (h4 : m' (a + w) = n) (hn : ∀ x ∈ a :: t, x ≠ z → m' x = m x)
    (hp : ∀ x ∈ t, m' (x + w) = m (x + w)) : Ring w m' (n :: a :: t) := by
  obtain ⟨u, y, hu⟩ : ∃ u y, a :: t = u ++ [y] := by
    rcases List.eq_nil_or_concat (a :: t) with h0 | ⟨u, y, h0⟩
    · simp at h0
    · exact ⟨u, y, by simpa using h0⟩
  have hy : y = z := by
    rw [← hz]
    rw [hu] at h
    rcases u with _ | ⟨b, u⟩
    · obtain ⟨rfl, rfl⟩ : a = y ∧ t = [] := by simpa using hu
      exact ((singleton_iff.1 h).2).symm
    · obtain ⟨rfl, rfl⟩ : a = b ∧ t = u ++ [y] := by simpa using hu
      exact (prev_concat h).symm
  subst hy
  rw [cons_iff] at h ⊢
  rw [← List.cons_append, hu, List.append_assoc] at h
  have hc : List.IsChain (Link w m') (a :: t) := by
    refine links_congr (fun x hx => ?_) (fun x hx => hp x (by simpa using hx))
      (hu ▸ (List.isChain_append.1 (List.append_assoc u [y] [a] ▸ h)).1)
    have hx' := hx
    rw [hu] at hx' hnd
    rw [List.dropLast_concat] at hx'
    refine hn x (by rw [hu]; exact List.mem_append_left _ hx') ?_
    rintro rfl
    exact (List.nodup_append.1 hnd).2.2 x hx' x (by simp) rfl
  rw [List.cons_append, List.isChain_cons_cons]
  refine ⟨⟨h3, h4⟩, ?_⟩
  rw [← List.cons_append, List.isChain_append]
  refine ⟨hc, .singleton _, ?_⟩
  intro x hx y' hy'
  rw [hu, List.getLast?_concat] at hx
  cases hx
  cases hy'
  exact ⟨h1, h2⟩

/-- The first node of a longer ring taken out, if the new memory links its neighbours and keeps
the other links. -/
theorem unlink {a b z : ℕ} {t : List ℕ} (h : Ring w m (a :: t)) (ht : t ≠ [])
    (hnd : t.Nodup) (hb : m a = b) (hz : m (a + w) = z) (h1 : m' z = b) (h2 : m' (b + w) = z)
    (hn : ∀ x ∈ t, x ≠ z → m' x = m x) (hp : ∀ x ∈ t, x ≠ b → m' (x + w) = m (x + w)) :
    Ring w m' t := by
  obtain ⟨u, y, rfl⟩ : ∃ u y, t = u ++ [y] := by
    rcases List.eq_nil_or_concat t with h0 | ⟨u, y, h0⟩
    · exact absurd h0 ht
    · exact ⟨u, y, by simpa using h0⟩
  obtain rfl : y = z := by rw [← hz, prev_concat h]
  obtain ⟨c, t, ht'⟩ : ∃ c t, u ++ [y] = c :: t := by
    rcases hv : u ++ [y] with _ | ⟨c, t⟩
    · simp at hv
    · exact ⟨c, t, rfl⟩
  have hcb : c = b := by
    rw [ht'] at h
    rw [← hb, h.next_cons]
  subst hcb
  have hc : List.IsChain (Link w m') (u ++ [y]) := by
    refine links_congr (fun x hx => ?_) (fun x hx => ?_)
      (List.isChain_append.1 (cons_iff.1 h).tail).1
    · rw [List.dropLast_concat] at hx
      refine hn x (List.mem_append_left _ hx) ?_
      rintro rfl
      exact (List.nodup_append.1 hnd).2.2 x hx x (by simp) rfl
    · rw [ht'] at hx hnd
      rw [List.tail_cons] at hx
      refine hp x (by rw [ht']; exact List.mem_cons_of_mem _ hx) ?_
      rintro rfl
      exact (List.nodup_cons.1 hnd).1 hx
  rw [ht', cons_iff, ← List.cons_append, ← ht', List.isChain_append]
  refine ⟨hc, .singleton _, ?_⟩
  intro x hx y' hy'
  rw [List.getLast?_concat] at hx
  cases hx
  cases hy'
  exact ⟨h1, h2⟩

end Ring

end RTLKIM

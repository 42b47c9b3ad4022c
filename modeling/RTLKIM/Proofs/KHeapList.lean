import RTLKIM.Lib.Ring
import RTLKIM.KHeap

/-!
# The heap's list operations edit rings

`remove`, `insert_before` and `insert_after` write only the link words of the nodes of the ring
they work on, and leave the ring one node shorter or longer. A node taken out, and one just
initialised, is a ring of its own.
-/

namespace RTLKIM

theorem Mem.set_self (m : Mem) (a v : ℕ) : m.set a v a = v := by simp [Mem.set]

theorem Mem.set_of_ne (m : Mem) {a x : ℕ} (v : ℕ) (h : x ≠ a) : m.set a v x = m x := by
  simp [Mem.set, h]

variable {m : Mem}

theorem listInit_ring (m : Mem) (a : ℕ) : Ring 4 (listInit m a) [a] := by
  rw [Ring.singleton_iff]
  simp [listInit, Mem.set]

theorem listInit_frame (m : Mem) {a x : ℕ} (hx : x ∉ cells 4 [a]) : listInit m a x = m x := by
  simp only [mem_cells, List.mem_singleton, exists_eq_left, not_or] at hx
  simp only [listInit]
  rw [Mem.set_of_ne _ _ hx.2, Mem.set_of_ne _ _ hx.1]

/-! ## `remove` -/

theorem remove_eq_set {a : ℕ} {t : List ℕ} (h : Ring 4 m (a :: t)) (ht : t ≠ [])
    (hnd : (a :: t).Nodup) (hsp : Spaced 4 (a :: t)) :
    remove m a = (((m.set (m (a + 4)) (m a)).set (m a + 4) (m (a + 4))).set a a).set (a + 4) a := by
  obtain ⟨hb, hz⟩ := h.neighbours_mem ht
  have hna : a ∉ t := (List.nodup_cons.1 hnd).1
  have h1 : a ≠ m (a + 4) := fun e => hna (e ▸ hz)
  have h2 : a + 4 ≠ m (a + 4) := (hsp _ (List.mem_cons_of_mem _ hz) a List.mem_cons_self).symm
  simp only [remove]
  rw [Mem.set_of_ne m _ h1, Mem.set_of_ne m _ h2]

theorem remove_ring {a : ℕ} {t : List ℕ} (h : Ring 4 m (a :: t)) (ht : t ≠ [])
    (hnd : (a :: t).Nodup) (hsp : Spaced 4 (a :: t)) : Ring 4 (remove m a) t := by
  obtain ⟨hb, hz⟩ := h.neighbours_mem ht
  have hna : a ∉ t := (List.nodup_cons.1 hnd).1
  have hne : ∀ x ∈ t, x ≠ a ∧ x ≠ a + 4 ∧ x + 4 ≠ a ∧ x + 4 ≠ a + 4 := by
    intro x hx
    refine ⟨fun e => hna (e ▸ hx), hsp x (List.mem_cons_of_mem _ hx) a List.mem_cons_self,
      (hsp a List.mem_cons_self x (List.mem_cons_of_mem _ hx)).symm, fun e => hna ?_⟩
    rwa [← Nat.add_right_cancel e]
  have hsp' : ∀ x ∈ t, ∀ y ∈ t, x ≠ y + 4 := hsp.mono (List.subset_cons_self a t)
  rw [remove_eq_set h ht hnd hsp]
  refine h.unlink ht (List.nodup_cons.1 hnd).2 rfl rfl ?_ ?_ (fun x hx hxz => ?_)
    (fun x hx hxb => ?_)
  · rw [Mem.set_of_ne _ _ (hne _ hz).2.1, Mem.set_of_ne _ _ (hne _ hz).1,
      Mem.set_of_ne _ _ (hsp' _ hz _ hb), Mem.set_self]
  · rw [Mem.set_of_ne _ _ (hne _ hb).2.2.2, Mem.set_of_ne _ _ (hne _ hb).2.2.1, Mem.set_self]
  · rw [Mem.set_of_ne _ _ (hne _ hx).2.1, Mem.set_of_ne _ _ (hne _ hx).1,
      Mem.set_of_ne _ _ (hsp' _ hx _ hb), Mem.set_of_ne _ _ hxz]
  · rw [Mem.set_of_ne _ _ (hne _ hx).2.2.2, Mem.set_of_ne _ _ (hne _ hx).2.2.1,
      Mem.set_of_ne _ _ (fun e => hxb (Nat.add_right_cancel e)),
      Mem.set_of_ne _ _ (hsp' _ hz _ hx).symm]

theorem remove_alone (m : Mem) (a : ℕ) : Ring 4 (remove m a) [a] := by
  rw [Ring.singleton_iff]
  simp [remove, Mem.set]

theorem remove_frame {a x : ℕ} {t : List ℕ} (h : Ring 4 m (a :: t)) (hnd : (a :: t).Nodup)
    (hsp : Spaced 4 (a :: t)) (hx : x ∉ cells 4 (a :: t)) : remove m a x = m x := by
  simp only [mem_cells, not_or, not_exists, not_and] at hx
  have hxa : x ≠ a := fun e => hx.1 (e ▸ List.mem_cons_self)
  have hxa' : x ≠ a + 4 := hx.2 a List.mem_cons_self
  by_cases ht : t = []
  · subst ht
    obtain ⟨h1, h2⟩ := Ring.singleton_iff.1 h
    simp only [remove, h1, h2]
    rw [Mem.set_of_ne _ _ hxa', Mem.set_of_ne _ _ hxa, Mem.set_self]
    rw [Mem.set_of_ne _ _ hxa', Mem.set_of_ne _ _ hxa]
  · obtain ⟨hb, hz⟩ := h.neighbours_mem ht
    have hxz : x ≠ m (a + 4) := by
      rintro rfl
      exact hx.1 (List.mem_cons_of_mem _ hz)
    rw [remove_eq_set h ht hnd hsp, Mem.set_of_ne _ _ hxa', Mem.set_of_ne _ _ hxa,
      Mem.set_of_ne _ _ (hx.2 _ (List.mem_cons_of_mem _ hb)), Mem.set_of_ne _ _ hxz]

/-! ## Insertion -/

section Insert

variable {a n : ℕ} {t : List ℕ} (h : Ring 4 m (a :: t)) (h1 : Ring 4 m [n])
  (hnd : (n :: a :: t).Nodup) (hsp : Spaced 4 (n :: a :: t))

include h1 in
theorem insertBefore_eq_set : insertBefore m a n =
    (((m.set (m (a + 4)) n).set (n + 4) (m (a + 4))).set n a).set (a + 4) n := by
  simp only [insertBefore, (Ring.singleton_iff.1 h1).2]

theorem Ring.prev_mem (h : Ring 4 m (a :: t)) : m (a + 4) ∈ a :: t := by
  by_cases ht : t = []
  · subst ht
    rw [(Ring.singleton_iff.1 h).2]
    exact List.mem_cons_self
  · exact List.mem_cons_of_mem _ (h.neighbours_mem ht).2

include h h1 hnd hsp in
theorem insertBefore_ring : Ring 4 (insertBefore m a n) (n :: a :: t) := by
  have hz := h.prev_mem
  have hnn : n ∉ a :: t := (List.nodup_cons.1 hnd).1
  have hmem : ∀ x ∈ a :: t, x ∈ n :: a :: t := fun x hx => List.mem_cons_of_mem _ hx
  have hne : ∀ x ∈ a :: t, x ≠ n ∧ x ≠ n + 4 ∧ x + 4 ≠ n ∧ x + 4 ≠ n + 4 := by
    intro x hx
    refine ⟨fun e => hnn (e ▸ hx), hsp x (hmem x hx) n List.mem_cons_self,
      (hsp n List.mem_cons_self x (hmem x hx)).symm, fun e => hnn ?_⟩
    rwa [← Nat.add_right_cancel e]
  have hsp' : ∀ x ∈ a :: t, ∀ y ∈ a :: t, x ≠ y + 4 := hsp.mono (List.subset_cons_self n _)
  have ha : a ∈ a :: t := List.mem_cons_self
  have hn4 : n ≠ n + 4 := by omega
  rw [insertBefore_eq_set h1]
  refine h.insert (List.nodup_cons.1 hnd).2 rfl ?_ ?_ ?_ (Mem.set_self _ _ _)
    (fun x hx hxz => ?_) (fun x hx => ?_)
  · rw [Mem.set_of_ne _ _ (hsp' _ hz _ ha), Mem.set_of_ne _ _ (hne _ hz).1,
      Mem.set_of_ne _ _ (hne _ hz).2.1, Mem.set_self]
  · rw [Mem.set_of_ne _ _ (hne a ha).2.2.2.symm, Mem.set_of_ne _ _ hn4.symm, Mem.set_self]
  · rw [Mem.set_of_ne _ _ (hne a ha).2.2.1.symm, Mem.set_self]
  · rw [Mem.set_of_ne _ _ (hsp' _ hx _ ha), Mem.set_of_ne _ _ (hne _ hx).1,
      Mem.set_of_ne _ _ (hne _ hx).2.1, Mem.set_of_ne _ _ hxz]
  · have hx' : x ∈ a :: t := List.mem_cons_of_mem _ hx
    have hxa : x + 4 ≠ a + 4 := by
      intro e
      have := (List.nodup_cons.1 (List.nodup_cons.1 hnd).2).1
      exact this (Nat.add_right_cancel e ▸ hx)
    rw [Mem.set_of_ne _ _ hxa, Mem.set_of_ne _ _ (hne _ hx').2.2.1,
      Mem.set_of_ne _ _ (hne _ hx').2.2.2, Mem.set_of_ne _ _ (hsp' _ hz _ hx').symm]

include h h1 in
theorem insertBefore_frame {x : ℕ} (hx : x ∉ cells 4 (n :: a :: t)) :
    insertBefore m a n x = m x := by
  have hz := h.prev_mem
  simp only [mem_cells, not_or, not_exists, not_and] at hx
  have hxz : x ≠ m (a + 4) := by
    rintro rfl
    exact hx.1 (List.mem_cons_of_mem _ hz)
  have hxn : x ≠ n := by
    rintro rfl
    exact hx.1 List.mem_cons_self
  rw [insertBefore_eq_set h1, Mem.set_of_ne _ _ (hx.2 a (by simp)), Mem.set_of_ne _ _ hxn,
    Mem.set_of_ne _ _ (hx.2 n (by simp)), Mem.set_of_ne _ _ hxz]

end Insert

/-- Inserting after a node is inserting before the next one. -/
theorem insertAfter_eq {a n : ℕ} {t : List ℕ} (h : Ring 4 m (a :: t)) (h1 : Ring 4 m [n])
    (hnd : (n :: a :: t).Nodup) (hsp : Spaced 4 (n :: a :: t)) :
    insertAfter m a n = insertBefore m (m a) n := by
  have hb : m (m a + 4) = a ∧ m a ∈ a :: t := by
    rcases t with _ | ⟨b, t⟩
    · rw [(Ring.singleton_iff.1 h).1]
      exact ⟨(Ring.singleton_iff.1 h).2, by simp⟩
    · have := Ring.link_of_split (u := []) h
      rw [this.1]
      exact ⟨this.2, by simp⟩
  have hn : m (n + 4) = n := (Ring.singleton_iff.1 h1).2
  simp only [insertAfter, insertBefore, hb.1, hn]

theorem insertAfter_ring {a n : ℕ} {t : List ℕ} (h : Ring 4 m (a :: t)) (h1 : Ring 4 m [n])
    (hnd : (n :: a :: t).Nodup) (hsp : Spaced 4 (n :: a :: t)) :
    Ring 4 (insertAfter m a n) (a :: n :: t) := by
  rw [insertAfter_eq h h1 hnd hsp]
  rcases t with _ | ⟨b, t⟩
  · rw [(Ring.singleton_iff.1 h).1]
    exact Ring.rotate [n] [a] (insertBefore_ring h h1 hnd hsp)
  · rw [h.next_cons]
    have hr : Ring 4 m (b :: (t ++ [a])) := Ring.rotate [a] (b :: t) h
    have hp : (n :: b :: (t ++ [a])).Perm (n :: a :: b :: t) :=
      List.Perm.cons n (List.perm_append_singleton a (b :: t))
    have := insertBefore_ring hr h1 (hp.nodup_iff.2 hnd) (hsp.mono hp.subset)
    exact Ring.rotate (n :: b :: t) [a] this

theorem insertAfter_frame {a n x : ℕ} {t : List ℕ} (h : Ring 4 m (a :: t)) (h1 : Ring 4 m [n])
    (hnd : (n :: a :: t).Nodup) (hsp : Spaced 4 (n :: a :: t)) (hx : x ∉ cells 4 (n :: a :: t)) :
    insertAfter m a n x = m x := by
  rw [insertAfter_eq h h1 hnd hsp]
  rcases t with _ | ⟨b, t⟩
  · rw [(Ring.singleton_iff.1 h).1]
    exact insertBefore_frame h h1 hx
  · rw [h.next_cons]
    refine insertBefore_frame (t := t ++ [a]) (Ring.rotate [a] (b :: t) h) h1 ?_
    intro hx'
    apply hx
    simp only [mem_cells, List.mem_cons, List.mem_append, List.not_mem_nil, or_false] at hx' ⊢
    rcases hx' with hx' | ⟨y, hy, rfl⟩
    · exact .inl (by tauto)
    · exact .inr ⟨y, by tauto, rfl⟩

end RTLKIM

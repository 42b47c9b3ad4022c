import Mathlib.Data.List.Chain
import Mathlib.Data.List.Nodup

/-!
# Doubly linked lists that end in `NULL`

Nodes are addresses, `0` is `NULL`, and the links are two functions on addresses. `Dll nx pv p l`
says that `p` points at the first node of `l` and that the nodes of `l` are linked both ways between
two `NULL`s. Put between the `NULL`s the list is a chain, so an edit at a seam (`Dll.insert`,
`Dll.erase`) asks for the new links at the seam and that the other links are kept. `Sll` is the same
for lists without links back.
-/

namespace RTLKIM

variable {nx pv nx' pv' : ℕ → ℕ} {p p' a : ℕ} {l u v : List ℕ}

/-- `b` follows `a`; a `NULL` has no links of its own. -/
def DLink (nx pv : ℕ → ℕ) (a b : ℕ) : Prop := (a ≠ 0 → nx a = b) ∧ (b ≠ 0 → pv b = a)

structure Dll (nx pv : ℕ → ℕ) (p : ℕ) (l : List ℕ) : Prop where
  links : List.IsChain (DLink nx pv) (0 :: (l ++ [0]))
  head : p = l.headD 0
  ne_zero : 0 ∉ l
  nodup : l.Nodup

/-- A chain reads the forward link of all but its last node and the backward link of all but its
first. -/
theorem dlinks_congr : ∀ {l : List ℕ}, (∀ x ∈ l.dropLast, x ≠ 0 → nx' x = nx x) →
    (∀ x ∈ l.tail, x ≠ 0 → pv' x = pv x) → List.IsChain (DLink nx pv) l →
    List.IsChain (DLink nx' pv') l
  | [], _, _, _ => .nil
  | [_], _, _, _ => .singleton _
  | a :: b :: l, hn, hp, h => by
    rw [List.isChain_cons_cons] at h ⊢
    obtain ⟨⟨h1, h2⟩, h3⟩ := h
    refine ⟨⟨fun ha => (hn a (by simp) ha).trans (h1 ha),
      fun hb => (hp b (by simp) hb).trans (h2 hb)⟩, ?_⟩
    exact dlinks_congr (fun x hx => hn x (by simp [hx])) (fun x hx => hp x (by simp_all)) h3

/-- The last node of a list, or `NULL`. -/
def lastD (u : List ℕ) : ℕ := u.getLast?.getD 0

@[simp] theorem lastD_nil : lastD [] = 0 := rfl

@[simp] theorem lastD_concat (u : List ℕ) (a : ℕ) : lastD (u ++ [a]) = a := by simp [lastD]

theorem getLast?_zero_cons (u : List ℕ) : (0 :: u).getLast? = some (lastD u) := List.getLast?_cons

theorem lastD_mem (u : List ℕ) : lastD u = 0 ∨ lastD u ∈ u := by
  rcases List.eq_nil_or_concat u with rfl | ⟨u, a, rfl⟩
  · exact .inl rfl
  · rw [List.concat_eq_append, lastD_concat]
    exact .inr (by simp)

theorem headD_mem (v : List ℕ) : v.headD 0 = 0 ∨ v.headD 0 ∈ v := by
  rcases v with _ | ⟨b, v⟩
  · exact .inl rfl
  · exact .inr List.mem_cons_self

theorem head?_concat_zero (v : List ℕ) : (v ++ [0]).head? = some (v.headD 0) := by
  rcases v with _ | ⟨b, v⟩
  · rfl
  · rfl

/-- The two sides of a seam, kept by a change of links at the seam and outside the list. -/
theorem sides_congr (h1 : List.IsChain (DLink nx pv) (0 :: u))
    (h2 : List.IsChain (DLink nx pv) (v ++ [0])) (hnd : (u ++ v).Nodup) (h0 : 0 ∉ u ++ v)
    (hn : ∀ x ∈ u ++ v, x ≠ lastD u → nx' x = nx x)
    (hp : ∀ x ∈ u ++ v, x ≠ v.headD 0 → pv' x = pv x) :
    List.IsChain (DLink nx' pv') (0 :: u) ∧ List.IsChain (DLink nx' pv') (v ++ [0]) := by
  obtain ⟨hu, hv, huv⟩ := List.nodup_append.1 hnd
  refine ⟨dlinks_congr (fun x hx hx0 => ?_) (fun x hx hx0 => ?_) h1,
    dlinks_congr (fun x hx hx0 => ?_) (fun x hx hx0 => ?_) h2⟩
  · rcases List.eq_nil_or_concat u with rfl | ⟨u, a, rfl⟩
    · simp at hx
    · rw [List.concat_eq_append] at *
      rw [← List.cons_append, List.dropLast_concat] at hx
      have hxu := (List.mem_cons.1 hx).resolve_left hx0
      refine hn x (by simp [hxu]) ?_
      rw [lastD_concat]
      rintro rfl
      exact (List.nodup_append.1 hu).2.2 _ hxu _ (by simp) rfl
  · refine hp x (List.mem_append_left _ hx) ?_
    rintro rfl
    rcases headD_mem v with h | h
    · exact hx0 h
    · exact huv _ hx _ h rfl
  · rw [List.dropLast_concat] at hx
    refine hn x (List.mem_append_right _ hx) ?_
    rintro rfl
    rcases lastD_mem u with h | h
    · exact hx0 h
    · exact huv _ h _ hx rfl
  · rcases v with _ | ⟨b, v⟩
    · simp at hx
    · have hxv : x ∈ v := by
        rw [List.cons_append, List.tail_cons, List.mem_append] at hx
        exact hx.resolve_right (by simpa using hx0)
      refine hp x (by simp [hxv]) ?_
      rintro rfl
      exact (List.nodup_cons.1 hv).1 hxv

namespace Dll

theorem nil : Dll nx pv 0 [] := by
  refine ⟨?_, rfl, by simp, by simp⟩
  simp [DLink]

theorem congr (h : Dll nx pv p l) (hn : ∀ x ∈ l, nx' x = nx x) (hp : ∀ x ∈ l, pv' x = pv x) :
    Dll nx' pv' p l := by
  refine { h with links := dlinks_congr (fun x hx h0 => hn x ?_) (fun x hx h0 => hp x ?_) h.links }
  · rw [← List.cons_append, List.dropLast_concat] at hx
    exact (List.mem_cons.1 hx).resolve_left h0
  · rw [List.tail_cons, List.mem_append] at hx
    exact hx.resolve_right (by simpa using h0)

/-- The two sides of a seam and the link across it, `NULL` at the ends. -/
theorem sides (h : Dll nx pv p (u ++ v)) : List.IsChain (DLink nx pv) (0 :: u)
    ∧ List.IsChain (DLink nx pv) (v ++ [0]) ∧ DLink nx pv (lastD u) (v.headD 0) := by
  have hl := h.links
  rw [List.append_assoc, ← List.cons_append, List.isChain_append] at hl
  exact ⟨hl.1, hl.2.1, hl.2.2 _ (getLast?_zero_cons u) _ (head?_concat_zero v)⟩

/-- The neighbours of a node. -/
theorem links_of_split (h : Dll nx pv p (u ++ a :: v)) : nx a = v.headD 0 ∧ pv a = lastD u := by
  have ha : a ≠ 0 := by
    rintro rfl
    exact h.ne_zero (by simp)
  obtain ⟨-, h2, h3⟩ := h.sides
  rw [List.cons_append, List.isChain_cons] at h2
  exact ⟨(h2.1 _ (head?_concat_zero v)).1 ha, h3.2 ha⟩

/-- A node put in at a seam. -/
theorem insert {n : ℕ} (h : Dll nx pv p (u ++ v)) (hn0 : n ≠ 0) (hn : n ∉ u ++ v)
    (h1 : nx' n = v.headD 0) (h2 : pv' n = lastD u) (h3 : lastD u ≠ 0 → nx' (lastD u) = n)
    (h4 : v.headD 0 ≠ 0 → pv' (v.headD 0) = n) (hnx : ∀ x ∈ u ++ v, x ≠ lastD u → nx' x = nx x)
    (hpv : ∀ x ∈ u ++ v, x ≠ v.headD 0 → pv' x = pv x) :
    Dll nx' pv' ((u ++ n :: v).headD 0) (u ++ n :: v) := by
  obtain ⟨s1, s2, -⟩ := h.sides
  obtain ⟨k1, k2⟩ := sides_congr s1 s2 h.nodup h.ne_zero hnx hpv
  refine ⟨?_, rfl, ?_, ?_⟩
  · rw [List.append_assoc, ← List.cons_append, List.isChain_append]
    refine ⟨k1, ?_, fun x hx y hy => ?_⟩
    · rw [List.cons_append, List.isChain_cons]
      refine ⟨fun y hy => ?_, k2⟩
      rw [head?_concat_zero] at hy
      cases hy
      exact ⟨fun _ => h1, h4⟩
    · rw [getLast?_zero_cons] at hx
      cases hx
      cases hy
      exact ⟨h3, fun _ => h2⟩
  · have := h.ne_zero
    simp only [List.mem_append, List.mem_cons, not_or] at this ⊢
    exact ⟨this.1, hn0.symm, this.2⟩
  · rw [List.perm_middle.nodup_iff, List.nodup_cons]
    exact ⟨hn, h.nodup⟩

/-- A node taken out. -/
theorem erase {n : ℕ} (h : Dll nx pv p (u ++ n :: v))
    (h1 : lastD u ≠ 0 → nx' (lastD u) = v.headD 0) (h2 : v.headD 0 ≠ 0 → pv' (v.headD 0) = lastD u)
    (hnx : ∀ x ∈ u ++ v, x ≠ lastD u → nx' x = nx x)
    (hpv : ∀ x ∈ u ++ v, x ≠ v.headD 0 → pv' x = pv x) :
    Dll nx' pv' ((u ++ v).headD 0) (u ++ v) := by
  have hnd : (u ++ v).Nodup := (List.nodup_cons.1 (List.perm_middle.nodup_iff.1 h.nodup)).2
  have h0 : 0 ∉ u ++ v := by
    intro hm
    refine h.ne_zero ?_
    simp only [List.mem_append, List.mem_cons] at hm ⊢
    tauto
  obtain ⟨s1, s2, -⟩ := h.sides
  obtain ⟨k1, k2⟩ := sides_congr s1 (List.isChain_cons.1 s2).2 hnd h0 hnx hpv
  refine ⟨?_, rfl, h0, hnd⟩
  rw [List.append_assoc, ← List.cons_append, List.isChain_append]
  refine ⟨k1, k2, fun x hx y hy => ?_⟩
  rw [getLast?_zero_cons] at hx
  rw [head?_concat_zero] at hy
  cases hx
  cases hy
  exact ⟨h1, h2⟩

end Dll

/-- A list linked by `nx` alone: there are links back that would fit. -/
def Sll (nx : ℕ → ℕ) (p : ℕ) (l : List ℕ) : Prop := ∃ pv, Dll nx pv p l

namespace Sll

theorem nil : Sll nx 0 [] := ⟨fun _ => 0, .nil⟩

theorem head (h : Sll nx p l) : p = l.headD 0 := h.choose_spec.head

theorem nodup (h : Sll nx p l) : l.Nodup := h.choose_spec.nodup

theorem ne_zero (h : Sll nx p l) (ha : a ∈ l) : a ≠ 0 := by
  rintro rfl
  exact h.choose_spec.ne_zero ha

theorem congr (h : Sll nx p l) (hn : ∀ x ∈ l, nx' x = nx x) : Sll nx' p l := by
  obtain ⟨pv, h⟩ := h
  exact ⟨pv, h.congr hn fun _ _ => rfl⟩

theorem next_of_split (h : Sll nx p (u ++ a :: v)) : nx a = v.headD 0 :=
  h.choose_spec.links_of_split.1

/-- A node put in at a seam. -/
theorem insert {n : ℕ} (h : Sll nx p (u ++ v)) (hn0 : n ≠ 0) (hn : n ∉ u ++ v)
    (h1 : nx' n = v.headD 0) (h2 : lastD u ≠ 0 → nx' (lastD u) = n)
    (hnx : ∀ x ∈ u ++ v, x ≠ lastD u → nx' x = nx x) :
    Sll nx' ((u ++ n :: v).headD 0) (u ++ n :: v) := by
  obtain ⟨pv, h⟩ := h
  refine ⟨Function.update (Function.update pv (v.headD 0) n) n (lastD u),
    h.insert hn0 hn h1 (Function.update_self ..) h2 (fun h0 => ?_) hnx fun x hx hxv => ?_⟩
  · have hne : v.headD 0 ≠ n := by
      intro he
      exact hn (List.mem_append_right _ (he ▸ (headD_mem v).resolve_left h0))
    rw [Function.update_of_ne hne, Function.update_self]
  · have hne : x ≠ n := by
      rintro rfl
      exact hn hx
    rw [Function.update_of_ne hne, Function.update_of_ne hxv]

end Sll

end RTLKIM

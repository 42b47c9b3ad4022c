import Mathlib.Data.List.Chain
import Mathlib.Data.Set.Card
import Mathlib.Data.Set.Lattice
import Mathlib.Order.Interval.Finset.Nat
import Mathlib.Order.Interval.Set.Basic
import Mathlib.Order.BourbakiWitt
import Mathlib.Order.CompletePartialOrder

/-!
# Lists of areas

An area is a stretch of numbers. `Apart` lists are sorted and leave a gap between any two areas, so
they are the only such lists of the numbers they cover. `addArea` puts an area in at a seam, joined
to the neighbours it touches; `takeArea` takes numbers from the front of one.
-/

namespace RTLKIM

structure Area where
  start : ℕ
  size : ℕ
  deriving DecidableEq

namespace Area

def stop (a : Area) : ℕ := a.start + a.size

def bytes (a : Area) : Set ℕ := Set.Ico a.start a.stop

/-- There is a gap between `a` and `b`. -/
def Before (a b : Area) : Prop := a.stop < b.start

/-- Both areas as one. -/
def join (a b : Area) : Area := ⟨a.start, a.size + b.size⟩

theorem join_stop {a b : Area} (h : a.stop = b.start) : (a.join b).stop = b.stop := by
  simp only [stop, join] at h ⊢
  omega

theorem join_bytes {a b : Area} (h : a.stop = b.start) : (a.join b).bytes = a.bytes ∪ b.bytes := by
  ext x
  simp only [stop] at h
  simp only [bytes, stop, join, Set.mem_Ico, Set.mem_union]
  omega

end Area

/-- Sorted, with a gap between neighbours. -/
def Apart (l : List Area) : Prop := List.IsChain Area.Before l

/-- The numbers in the areas of `l`. -/
def covered (l : List Area) : Set ℕ := {x | ∃ a ∈ l, x ∈ a.bytes}

@[simp] theorem covered_nil : covered [] = ∅ := by simp [covered]

@[simp] theorem covered_cons (a : Area) (l : List Area) :
    covered (a :: l) = a.bytes ∪ covered l := by
  ext x
  simp [covered]

@[simp] theorem covered_append (u v : List Area) : covered (u ++ v) = covered u ∪ covered v := by
  ext x
  simp only [covered, List.mem_append, Set.mem_ofPred_eq, Set.mem_union]
  constructor
  · rintro ⟨a, h | h, hx⟩
    · exact .inl ⟨a, h, hx⟩
    · exact .inr ⟨a, h, hx⟩
  · rintro (⟨a, h, hx⟩ | ⟨a, h, hx⟩)
    · exact ⟨a, .inl h, hx⟩
    · exact ⟨a, .inr h, hx⟩

/-- An area that leaves a number out is smaller than all of them. -/
theorem size_lt_of_not_covered {l : List Area} {a : Area} {N g : ℕ} (hg : g < N) (hgl : g ∉ covered l)
    (ha : a ∈ l) (hstop : a.stop ≤ N) : a.size < N := by
  have hga : g ∉ a.bytes := fun hx => hgl ⟨a, ha, hx⟩
  simp only [Area.bytes, Area.stop, Set.mem_Ico] at hga hstop
  omega

/-- There are as many numbers as the sizes say at most. -/
theorem ncard_covered_le : ∀ l : List Area,
    (covered l).Finite ∧ (covered l).ncard ≤ (l.map Area.size).sum
  | [] => by simp
  | a :: l => by
    obtain ⟨hfin, hle⟩ := ncard_covered_le l
    have hbytes : a.bytes.ncard = a.size := by
      rw [Area.bytes, ← Finset.coe_Ico, Set.ncard_coe_finset, Nat.card_Ico, Area.stop,
        Nat.add_sub_cancel_left]
    rw [covered_cons, List.map_cons, List.sum_cons]
    exact ⟨(Set.finite_Ico _ _).union hfin,
      (Set.ncard_union_le _ _).trans (Nat.add_le_add hbytes.le hle)⟩

/-- Areas that are too small leave a number out. -/
theorem exists_not_covered {l : List Area} {N : ℕ} (h : (l.map Area.size).sum < N) :
    ∃ g < N, g ∉ covered l := by
  by_contra hall
  push Not at hall
  obtain ⟨hfin, hle⟩ := ncard_covered_le l
  have hsub : (Finset.range N : Set ℕ) ⊆ covered l := fun g hg => hall g (Finset.mem_range.1 hg)
  have hN := Set.ncard_le_ncard hsub hfin
  rw [Set.ncard_coe_finset, Finset.card_range] at hN
  exact Nat.not_lt.2 (hN.trans hle) h

namespace Apart

variable {l u v : List Area} {a b : Area}

theorem pairwise (h : Apart l) : l.Pairwise Area.Before := by
  have : IsTrans Area Area.Before :=
    ⟨fun a b c (h1 : _ < _) (h2 : _ < _) => by unfold Area.Before Area.stop at *; omega⟩
  exact List.IsChain.pairwise h

/-- Nothing of `v` is before the end of an area that is left of it. -/
theorem disjoint_right (h : Apart (a :: v)) {x : ℕ} (hx : x ∈ covered v) : a.stop < x := by
  obtain ⟨b, hb, hx⟩ := hx
  have : a.stop < b.start := (List.pairwise_cons.1 h.pairwise).1 b hb
  exact this.trans_le hx.1

theorem disjoint_left (h : Apart (u ++ [a])) {x : ℕ} (hx : x ∈ covered u) : x < a.start := by
  obtain ⟨b, hb, hx⟩ := hx
  have : b.stop < a.start := (List.pairwise_append.1 h.pairwise).2.2 b hb a (by simp)
  exact hx.2.trans this

/-- Two areas of the list are one, or one is before the other. -/
theorem trichotomy (h : Apart l) (ha : a ∈ l) (hb : b ∈ l) : a = b ∨ a.Before b ∨ b.Before a := by
  by_cases hab : a = b
  · exact .inl hab
  · have hpw : l.Pairwise fun a b => Area.Before a b ∨ Area.Before b a :=
      h.pairwise.imp fun hlt => .inl hlt
    have : Std.Symm fun a b => Area.Before a b ∨ Area.Before b a := ⟨fun _ _ h => h.symm⟩
    exact .inr (hpw.forall ha hb hab)

theorem sorted (h : Apart l) : l.Pairwise fun a b => a.start < b.start :=
  h.pairwise.imp fun {a b} (hab : a.stop < b.start) => by
    simp only [Area.stop] at hab
    omega

theorem disjoint (h : Apart l) : l.Pairwise fun a b => Disjoint a.bytes b.bytes :=
  h.pairwise.imp fun hab => Set.disjoint_left.2 fun _ hx hx' =>
    absurd (hx.2.trans hab) (Nat.not_lt.2 hx'.1)

theorem gaps (h : Apart l) : l.Pairwise fun a b => a.stop ≠ b.start ∧ b.stop ≠ a.start :=
  h.pairwise.imp fun {a b} (hab : a.stop < b.start) => by
    simp only [Area.stop] at hab ⊢
    omega

/-- Areas that are sorted and have no number in common are apart, when none is empty and none ends
where another starts. -/
theorem of_sorted (hs : l.Pairwise fun a b => a.start < b.start)
    (hd : l.Pairwise fun a b => Disjoint a.bytes b.bytes)
    (hg : l.Pairwise fun a b => a.stop ≠ b.start ∧ b.stop ≠ a.start) (hpos : ∀ a ∈ l, 0 < a.size) :
    Apart l := by
  refine List.Pairwise.isChain (((hs.and hd).and hg).imp_of_mem fun {a b} _ hb ⟨⟨h1, h2⟩, h3⟩ => ?_)
  -- the second starts after the first, not in it and not at its end
  have hnot : b.start ∉ a.bytes := fun hx => Set.disjoint_left.1 h2 hx
    ⟨le_rfl, Nat.lt_add_of_pos_right (hpos b hb)⟩
  have hge : a.stop ≤ b.start := Nat.le_of_not_lt fun hlt => hnot ⟨h1.le, hlt⟩
  exact lt_of_le_of_ne hge h3.1

/-- The areas of a list that is apart are read off the numbers it covers. -/
theorem eq_of_covered : ∀ {l m : List Area}, Apart l → Apart m → (∀ a ∈ l, 0 < a.size) →
    (∀ a ∈ m, 0 < a.size) → covered l = covered m → l = m
  | [], [], _, _, _, _, _ => rfl
  | [], b :: m, _, _, _, hm, h => by
    have hb := hm b (by simp)
    have : b.start ∈ covered [] := by
      rw [h]
      exact ⟨b, by simp, le_rfl, by unfold Area.stop; omega⟩
    simp at this
  | a :: l, [], _, _, hl, _, h => by
    have ha := hl a (by simp)
    have : a.start ∈ covered [] := by
      rw [← h]
      exact ⟨a, by simp, le_rfl, by unfold Area.stop; omega⟩
    simp at this
  | a :: l, b :: m, hal, hbm, hl, hm, h => by
    have ha := hl a (by simp)
    have hb := hm b (by simp)
    have hmem : ∀ {c : Area} {k : List Area} {x : ℕ}, Apart (c :: k) → x ∈ covered (c :: k) →
        c.start ≤ x ∧ (x < c.stop ∨ c.stop < x) := by
      intro c k x hk hx
      rw [covered_cons] at hx
      rcases hx with hx | hx
      · exact ⟨hx.1, .inl hx.2⟩
      · have := hk.disjoint_right hx
        unfold Area.stop at *
        omega
    have hin : ∀ {c : Area} {k : List Area} {x : ℕ}, c.start ≤ x → x < c.stop →
        x ∈ covered (c :: k) := fun h1 h2 => ⟨_, by simp, h1, h2⟩
    -- the first numbers covered, and the first after them that is not
    have h1 := hmem hbm (h ▸ hin le_rfl (by unfold Area.stop; omega) : a.start ∈ covered (b :: m))
    have h2 := hmem hal (h ▸ hin le_rfl (by unfold Area.stop; omega) : b.start ∈ covered (a :: l))
    have hstart : a.start = b.start := by omega
    have hstop : a.stop = b.stop := by
      rcases lt_trichotomy a.stop b.stop with hlt | heq | hlt
      · have h3 := hmem hal (h ▸ hin (by unfold Area.stop at *; omega) hlt : a.stop ∈ covered (a :: l))
        omega
      · exact heq
      · have h3 := hmem hbm (h ▸ hin (by unfold Area.stop at *; omega) hlt : b.stop ∈ covered (b :: m))
        omega
    obtain rfl : a = b := by
      obtain ⟨s, n⟩ := a
      obtain ⟨t, k⟩ := b
      simp only [Area.stop] at hstart hstop
      simp only [Area.mk.injEq]
      omega
    congr 1
    refine eq_of_covered (List.isChain_cons.1 hal).2 (List.isChain_cons.1 hbm).2
      (fun c hc => hl c (by simp [hc])) (fun c hc => hm c (by simp [hc])) ?_
    have hrest : ∀ {k : List Area} {x : ℕ}, Apart (a :: k) →
        (x ∈ covered k ↔ x ∈ covered (a :: k) ∧ a.stop ≤ x) := by
      intro k x hk
      rw [covered_cons]
      constructor
      · exact fun hx => ⟨.inr hx, (hk.disjoint_right hx).le⟩
      · rintro ⟨hx | hx, h3⟩
        · exact absurd hx.2 (by omega)
        · exact hx
    ext x
    rw [hrest hal, hrest hbm, h]

end Apart

/-- The areas of the numbers `S`: sorted, none empty, and one wherever two would touch. -/
structure Merged (S : Set ℕ) (l : List Area) : Prop where
  apart : Apart l
  pos : ∀ a ∈ l, 0 < a.size
  covers : covered l = S

/-- There is one such list. -/
theorem Merged.eq {S : Set ℕ} {l m : List Area} (h : Merged S l) (h' : Merged S m) : l = m :=
  Apart.eq_of_covered h.apart h'.apart h.pos h'.pos (h.covers.trans h'.covers.symm)

/-! ## Adding -/

/-- `a` before `v`, joined to the first of `v` if it touches it. -/
def joinNext (a : Area) : List Area → List Area
  | [] => [a]
  | c :: v => if a.stop = c.start then a.join c :: v else a :: c :: v

/-- `u` before `w`, the last of `u` joined to the first of `w` if it touches it. -/
def joinPrev (u : List Area) : List Area → List Area
  | [] => u
  | b :: w => match u.getLast? with
    | none => b :: w
    | some p => if p.stop = b.start then u.dropLast ++ p.join b :: w else u ++ b :: w

/-- `a` put in between `u` and `v`. -/
def addArea (u : List Area) (a : Area) (v : List Area) : List Area := joinPrev u (joinNext a v)

/-- `a` overlaps neither of its neighbours at the seam of `u` and `v`. -/
def Fits (u : List Area) (a : Area) (v : List Area) : Prop :=
  (∀ p ∈ u.getLast?, p.stop ≤ a.start) ∧ ∀ c ∈ v.head?, a.stop ≤ c.start

/-- `b` overlaps no area of `l`, and no empty area of `l` lies inside it. -/
def Clear (b : Area) (l : List Area) : Prop := ∀ a ∈ l, a.stop ≤ b.start ∨ b.stop ≤ a.start

instance (b : Area) (l : List Area) : Decidable (Clear b l) :=
  inferInstanceAs (Decidable (∀ a ∈ l, _))

/-- An area that has no number of the list is clear of it, when neither has an empty area. -/
theorem Clear.of_disjoint {b : Area} {l : List Area} (hb : 0 < b.size) (hl : ∀ a ∈ l, 0 < a.size)
    (h : Disjoint b.bytes (covered l)) : Clear b l := by
  intro a ha
  have hpos := hl a ha
  -- otherwise the later of the two starts is in both
  by_contra hno
  push Not at hno
  have hin : max a.start b.start ∈ b.bytes :=
    ⟨le_max_right _ _, max_lt hno.2 (Nat.lt_add_of_pos_right hb)⟩
  exact Set.disjoint_left.1 h hin
    ⟨a, ha, le_max_left _ _, max_lt (Nat.lt_add_of_pos_right hpos) hno.1⟩

section Add

variable {u v w : List Area} {a b p : Area}

@[simp] theorem joinPrev_nil_left : joinPrev [] (b :: w) = b :: w := rfl

@[simp] theorem joinPrev_concat : joinPrev (u ++ [p]) (b :: w)
    = if p.stop = b.start then u ++ p.join b :: w else u ++ p :: b :: w := by
  simp [joinPrev]

theorem joinNext_spec (hv : Apart v) (ha : ∀ c ∈ v.head?, a.stop ≤ c.start) :
    Apart (joinNext a v) ∧ covered (joinNext a v) = a.bytes ∪ covered v
      ∧ ∃ b w, joinNext a v = b :: w ∧ b.start = a.start := by
  rcases v with _ | ⟨c, v⟩
  · exact ⟨.singleton _, by simp [joinNext], a, [], rfl, rfl⟩
  · have hac := ha c (by simp)
    simp only [joinNext]
    split_ifs with h
    · refine ⟨?_, ?_, _, _, rfl, rfl⟩
      · refine List.isChain_cons.2 ⟨fun d hd => ?_, (List.isChain_cons.1 hv).2⟩
        unfold Area.Before
        rw [Area.join_stop h]
        exact (List.isChain_cons.1 hv).1 d hd
      · rw [covered_cons, covered_cons, Area.join_bytes h, Set.union_assoc]
    · refine ⟨List.isChain_cons_cons.2 ⟨?_, hv⟩, by simp, _, _, rfl, rfl⟩
      exact lt_of_le_of_ne hac h

theorem joinPrev_spec (hu : Apart u) (hw : Apart (b :: w))
    (hb : ∀ p ∈ u.getLast?, p.stop ≤ b.start) :
    Apart (joinPrev u (b :: w)) ∧ covered (joinPrev u (b :: w)) = covered u ∪ covered (b :: w) := by
  rcases List.eq_nil_or_concat u with rfl | ⟨u, p, rfl⟩
  · exact ⟨hw, by simp⟩
  rw [List.concat_eq_append] at *
  have hpb := hb p (by simp)
  rw [joinPrev_concat]
  obtain ⟨h1, -, h3⟩ := List.isChain_append.1 hu
  split_ifs with h
  · refine ⟨List.isChain_append.2 ⟨h1, ?_, fun x hx y hy => ?_⟩, ?_⟩
    · refine List.isChain_cons.2 ⟨fun d hd => ?_, (List.isChain_cons.1 hw).2⟩
      unfold Area.Before
      rw [Area.join_stop h]
      exact (List.isChain_cons.1 hw).1 d hd
    · cases hy
      exact h3 x hx p (by simp)
    · simp only [covered_append, covered_cons, covered_nil, Area.join_bytes h, Set.union_empty,
        Set.union_assoc]
  · refine ⟨List.isChain_append.2 ⟨h1, List.isChain_cons_cons.2 ⟨lt_of_le_of_ne hpb h, hw⟩,
      fun x hx y hy => ?_⟩, ?_⟩
    · cases hy
      exact h3 x hx p (by simp)
    · simp only [covered_append, covered_cons, covered_nil, Set.union_empty, Set.union_assoc]

/-- An area that fits at the seam is added, and the list is still apart. -/
theorem addArea_spec (h : Apart (u ++ v)) (hf : Fits u a v) :
    Apart (addArea u a v) ∧ covered (addArea u a v) = covered (u ++ v) ∪ a.bytes := by
  obtain ⟨hu, hv, -⟩ := List.isChain_append.1 h
  obtain ⟨h1, h2, b, w, hw, hb⟩ := joinNext_spec hv hf.2
  unfold addArea
  rw [hw] at h1 h2 ⊢
  obtain ⟨h3, h4⟩ := joinPrev_spec hu h1 (by rw [hb]; exact hf.1)
  refine ⟨h3, ?_⟩
  rw [h4, h2, covered_append, Set.union_assoc, Set.union_comm a.bytes]

/-- What holds of the areas of the list and of the one added, and passes to the join of two areas
that touch, holds of the areas of the result. -/
theorem forall_mem_addArea {Q : Area → Prop}
    (hjoin : ∀ a b : Area, a.stop = b.start → Q a → Q b → Q (a.join b)) (hl : ∀ x ∈ u ++ v, Q x)
    (ha : Q a) : ∀ x ∈ addArea u a v, Q x := by
  have hn : ∀ x ∈ joinNext a v, Q x := by
    intro x hx
    rcases v with _ | ⟨c, v⟩
    · rw [List.mem_singleton.1 hx]
      exact ha
    · have hc := hl c (by simp)
      simp only [joinNext] at hx
      split_ifs at hx with h
      · rcases List.mem_cons.1 hx with rfl | hx
        · exact hjoin a c h ha hc
        · exact hl x (by simp [hx])
      · rcases List.mem_cons.1 hx with rfl | hx
        · exact ha
        · exact hl x (by simp [hx])
  intro x hx
  unfold addArea at hx
  rcases hj : joinNext a v with _ | ⟨d, w⟩
  · rw [hj] at hx
    exact hl x (List.mem_append_left _ hx)
  rw [hj] at hx hn
  rcases List.eq_nil_or_concat u with rfl | ⟨u, p, rfl⟩
  · exact hn x hx
  rw [List.concat_eq_append] at hx hl
  rw [joinPrev_concat] at hx
  have hp := hl p (by simp)
  have hd := hn d (by simp)
  split_ifs at hx with h
  · rcases List.mem_append.1 hx with hx | hx
    · exact hl x (by simp [hx])
    · rcases List.mem_cons.1 hx with rfl | hx
      · exact hjoin p d h hp hd
      · exact hn x (by simp [hx])
  · rcases List.mem_append.1 hx with hx | hx
    · exact hl x (by simp [hx])
    · rcases List.mem_cons.1 hx with rfl | hx
      · exact hp
      · exact hn x hx

/-- What is clear of the list and of the area added is clear of the result. -/
theorem Clear.addArea (hl : Clear b (u ++ v)) (ha : Clear b [a]) (hb : 0 < b.size) :
    Clear b (addArea u a v) := by
  refine forall_mem_addArea (fun p c h hp hc => ?_) hl (ha a (by simp))
  rw [Area.join_stop h]
  simp only [Area.stop, Area.join] at *
  omega

/-- An area clear of the list fits at the seam its start belongs to. -/
theorem Clear.fits (h : Clear b (u ++ v)) (hb : 0 < b.size) (hu : ∀ a ∈ u, a.start ≤ b.start)
    (hv : ∀ a ∈ v.head?, b.start < a.start) : Fits u b v := by
  refine ⟨fun a ha => ?_, fun a ha => ?_⟩
  · have hau := List.mem_of_getLast? ha
    have := hu a hau
    have := h a (List.mem_append_left _ hau)
    simp only [Area.stop] at *
    omega
  · have := hv a ha
    have := h a (List.mem_append_right _ (List.mem_of_mem_head? ha))
    simp only [Area.stop] at *
    omega

end Add

/-! ## Taking -/

/-- `n` numbers taken from the front of `a`; what is left of it, if anything. -/
def takeArea (u : List Area) (a : Area) (v : List Area) (n : ℕ) : List Area :=
  if a.size = n then u ++ v else u ++ ⟨a.start + n, a.size - n⟩ :: v

theorem takeArea_spec {u v : List Area} {a : Area} {n : ℕ} (h : Apart (u ++ a :: v))
    (hn : n ≤ a.size) : Apart (takeArea u a v n)
      ∧ covered (takeArea u a v n) = covered (u ++ a :: v) \ Set.Ico a.start (a.start + n) := by
  obtain ⟨h1, h2, h3⟩ := List.isChain_append.1 h
  have hav : ∀ x ∈ covered v, a.start + a.size < x := fun x hx => Apart.disjoint_right h2 hx
  have hua : ∀ x ∈ covered u, x < a.start := by
    refine fun x hx => Apart.disjoint_left (u := u) (a := a) ?_ hx
    exact List.isChain_append.2 ⟨h1, .singleton _, fun x hx y hy => by
      cases hy
      exact h3 x hx a (by simp)⟩
  unfold takeArea
  split_ifs with hs
  · refine ⟨List.isChain_append.2 ⟨h1, (List.isChain_cons.1 h2).2, fun x hx y hy => ?_⟩, ?_⟩
    · have hxa : x.stop < a.start := h3 x hx a (by simp)
      have hay : a.stop < y.start := (List.isChain_cons.1 h2).1 y hy
      unfold Area.Before Area.stop at *
      omega
    · ext x
      have := hav x
      have := hua x
      simp only [covered_append, covered_cons, Area.bytes, Area.stop, Set.mem_union, Set.mem_sdiff,
        Set.mem_Ico]
      constructor
      · rintro (h | h)
        · exact ⟨.inl h, by have := hua x h; omega⟩
        · exact ⟨.inr (.inr h), by have := hav x h; omega⟩
      · rintro ⟨h | h | h, h'⟩
        · exact .inl h
        · omega
        · exact .inr h
  · refine ⟨List.isChain_append.2 ⟨h1, List.isChain_cons.2 ⟨fun y hy => ?_,
      (List.isChain_cons.1 h2).2⟩, fun x hx y hy => ?_⟩, ?_⟩
    · have hay : a.stop < y.start := (List.isChain_cons.1 h2).1 y hy
      simp only [Area.Before, Area.stop] at *
      omega
    · have hxa : x.stop < a.start := h3 x hx a (by simp)
      cases hy
      simp only [Area.Before, Area.stop] at *
      omega
    · ext x
      simp only [covered_append, covered_cons, Area.bytes, Area.stop, Set.mem_union, Set.mem_sdiff,
        Set.mem_Ico]
      constructor
      · rintro (h | h | h)
        · exact ⟨.inl h, by have := hua x h; omega⟩
        · exact ⟨.inr (.inl (by omega)), by omega⟩
        · exact ⟨.inr (.inr h), by have := hav x h; omega⟩
      · rintro ⟨h | h | h, h'⟩
        · exact .inl h
        · exact .inr (.inl (by omega))
        · exact .inr (.inr h)

theorem forall_mem_takeArea {u v : List Area} {a : Area} {n : ℕ} {Q : Area → Prop}
    (hl : ∀ x ∈ u ++ a :: v, Q x) (ha : a.size ≠ n → Q a → Q ⟨a.start + n, a.size - n⟩) :
    ∀ x ∈ takeArea u a v n, Q x := by
  intro x hx
  unfold takeArea at hx
  split_ifs at hx with heq
  · refine hl x ?_
    simp only [List.mem_append, List.mem_cons] at hx ⊢
    tauto
  · simp only [List.mem_append, List.mem_cons] at hx
    rcases hx with hx | rfl | hx
    · exact hl x (by simp [hx])
    · exact ha heq (hl a (by simp))
    · exact hl x (by simp [hx])

/-- No area of what is left is empty. -/
theorem takeArea_pos {u v : List Area} {a : Area} {n : ℕ} (hl : ∀ x ∈ u ++ a :: v, 0 < x.size)
    (hn : n ≤ a.size) : ∀ x ∈ takeArea u a v n, 0 < x.size := by
  intro x hx
  unfold takeArea at hx
  split_ifs at hx with hs
  · exact hl x (by simp only [List.mem_append, List.mem_cons] at hx ⊢; tauto)
  · simp only [List.mem_append, List.mem_cons] at hx
    rcases hx with hx | rfl | hx
    · exact hl x (by simp [hx])
    · exact Nat.sub_pos_of_lt (lt_of_le_of_ne hn (Ne.symm hs))
    · exact hl x (by simp [hx])

theorem Clear.takeArea {u v : List Area} {a b : Area} {n : ℕ} (h : Clear b (u ++ a :: v))
    (hn : n ≤ a.size) : Clear b (takeArea u a v n) := by
  refine forall_mem_takeArea h fun _ ha => ?_
  simp only [Area.stop] at *
  omega

/-- What is taken is clear of what is left. -/
theorem Clear.taken {u v : List Area} {a : Area} {n : ℕ} (h : Apart (u ++ a :: v))
    (hn : n ≤ a.size) : Clear ⟨a.start, n⟩ (RTLKIM.takeArea u a v n) := by
  have hpw := h.pairwise
  rw [List.pairwise_append, List.pairwise_cons] at hpw
  intro x hx
  unfold RTLKIM.takeArea at hx
  have hu : ∀ x ∈ u, x.stop < a.start := fun x hx => hpw.2.2 x hx a (by simp)
  have hv : ∀ x ∈ v, a.stop < x.start := hpw.2.1.1
  split_ifs at hx
  · rcases List.mem_append.1 hx with hx | hx
    · exact .inl (hu x hx).le
    · have := hv x hx
      simp only [Area.stop] at *
      omega
  · simp only [List.mem_append, List.mem_cons] at hx
    rcases hx with hx | rfl | hx
    · exact .inl (hu x hx).le
    · exact .inr le_rfl
    · have := hv x hx
      simp only [Area.stop] at *
      omega

/-- What is left is before what was taken, or after it. -/
theorem mem_takeArea {u v : List Area} {a x : Area} {n : ℕ} (h : Apart (u ++ a :: v))
    (hn : n ≤ a.size) (hx : x ∈ takeArea u a v n) : x.stop < a.start ∨ a.start + n ≤ x.start := by
  obtain ⟨-, hav, hua⟩ := List.pairwise_append.1 h.pairwise
  have hu : ∀ b ∈ u, b.stop < a.start := fun b hb => hua b hb a (by simp)
  have hv : ∀ b ∈ v, a.start + n ≤ b.start := by
    intro b hb
    have : a.stop < b.start := (List.pairwise_cons.1 hav).1 b hb
    unfold Area.stop at this
    omega
  unfold takeArea at hx
  split_ifs at hx
  · exact (List.mem_append.1 hx).imp (hu x) (hv x)
  · simp only [List.mem_append, List.mem_cons] at hx
    rcases hx with hx | rfl | hx
    · exact .inl (hu x hx)
    · exact .inr le_rfl
    · exact .inr (hv x hx)

/-- There is one seam at `x`, when no area starts at it. -/
theorem seam_unique {u v u' v' : List Area} {x : ℕ} (h : u ++ v = u' ++ v')
    (hu : ∀ a ∈ u, a.start < x)
    (hv : ∀ a ∈ v, x < a.start) (hu' : ∀ a ∈ u', a.start ≤ x) (hv' : ∀ a ∈ v'.head?, x < a.start) :
    u' = u ∧ v' = v := by
  rcases List.append_eq_append_iff.1 h with ⟨c, hc, hc'⟩ | ⟨c, hc, hc'⟩
  · rcases c with _ | ⟨a, c⟩
    · simp_all
    · have h1 := hu' a (by simp [hc])
      have h2 := hv a (by simp [hc'])
      omega
  · rcases c with _ | ⟨a, c⟩
    · simp_all
    · have h1 := hu a (by simp [hc])
      have h2 := hv' a (by simp [hc'])
      omega

/-- What was taken from the front of an area and is put back where it belongs leaves the list as it
was. -/
theorem addArea_takeArea {u v u' v' : List Area} {a : Area} {n : ℕ} (h : Apart (u ++ a :: v))
    (hn : 0 < n) (hle : n ≤ a.size) (hsplit : takeArea u a v n = u' ++ v')
    (hu' : ∀ b ∈ u', b.start ≤ a.start) (hv' : ∀ b ∈ v'.head?, a.start < b.start) :
    addArea u' ⟨a.start, n⟩ v' = u ++ a :: v := by
  obtain ⟨-, hav, hua⟩ := List.pairwise_append.1 h.pairwise
  have hu : ∀ b ∈ u, b.stop < a.start := fun b hb => hua b hb a (by simp)
  have hv : ∀ b ∈ v, a.stop < b.start := (List.pairwise_cons.1 hav).1
  have hu₁ : ∀ b ∈ u, b.start < a.start := by
    intro b hb
    have := hu b hb
    unfold Area.stop at this
    omega
  -- nothing before it touches it
  have hprev : ∀ b w, b.start = a.start → joinPrev u (b :: w) = u ++ b :: w := by
    intro b w hb
    rcases List.eq_nil_or_concat u with rfl | ⟨u, p, rfl⟩
    · rfl
    · have := (hu p (by simp)).ne
      rw [← hb] at this
      rw [List.concat_eq_append, joinPrev_concat, if_neg this]
      simp
  unfold takeArea at hsplit
  split_ifs at hsplit with hs
  · have hv₁ : ∀ b ∈ v, a.start < b.start := by
      intro b hb
      have := hv b hb
      unfold Area.stop at this
      omega
    obtain ⟨rfl, rfl⟩ := seam_unique hsplit hu₁ hv₁ hu' hv'
    have hnext : joinNext a v' = a :: v' := by
      rcases v' with _ | ⟨c, v⟩
      · rfl
      · rw [joinNext, if_neg (hv c (by simp)).ne]
    rw [addArea, ← hs, hnext, hprev a v' rfl]
  · have hv₁ : ∀ b ∈ (⟨a.start + n, a.size - n⟩ : Area) :: v, a.start < b.start := by
      intro b hb
      rcases List.mem_cons.1 hb with rfl | hb
      · show a.start < a.start + n
        omega
      · have := hv b hb
        unfold Area.stop at this
        omega
    obtain ⟨rfl, rfl⟩ := seam_unique hsplit hu₁ hv₁ hu' hv'
    have hjoin : (⟨a.start, n⟩ : Area).join ⟨a.start + n, a.size - n⟩ = a := by
      obtain ⟨start, size⟩ := a
      simp only [Area.join, Area.mk.injEq, true_and] at *
      omega
    have hnext : joinNext ⟨a.start, n⟩ (⟨a.start + n, a.size - n⟩ :: v) = a :: v := by
      simp only [joinNext, Area.stop, if_true, hjoin]
    rw [addArea, hnext, hprev a v rfl]

end RTLKIM

import RTLKIM.Lib.Area
import Mathlib.Data.Set.Card
import Mathlib.Order.Interval.Finset.Nat
import Mathlib.Algebra.BigOperators.Ring.List

/-!
# Areas in whole frames

Frames are numbered and `K` bytes long. `Frames K N A S` says the areas `A` are those of the frames
`S`, all below `N`, sorted and with gaps between them: the areas of frames counted in frames, scaled
by `K`. Adding and taking commute with the scaling, so what they do to the frames is read off what
they do to the areas counted in frames.
-/

namespace RTLKIM

namespace Area

/-- An area counted in frames, in bytes. -/
def scale (K : ℕ) (a : Area) : Area := ⟨a.start * K, a.size * K⟩

theorem scale_stop (K : ℕ) (a : Area) : (a.scale K).stop = a.stop * K :=
  (Nat.add_mul _ _ _).symm

theorem scale_join (K : ℕ) (a b : Area) : (a.join b).scale K = (a.scale K).join (b.scale K) := by
  simp only [scale, join, Nat.add_mul]

end Area

section Scale

variable {K : ℕ} (hK : 0 < K)

include hK

theorem scale_touches {a b : Area} : (a.scale K).stop = (b.scale K).start ↔ a.stop = b.start := by
  rw [Area.scale_stop]
  exact Nat.mul_left_inj hK.ne'

theorem joinNext_scale (a : Area) (v : List Area) :
    joinNext (a.scale K) (v.map (Area.scale K)) = (joinNext a v).map (Area.scale K) := by
  rcases v with _ | ⟨c, v⟩
  · rfl
  · simp only [List.map_cons, joinNext, scale_touches hK]
    split_ifs with h
    · rw [List.map_cons, Area.scale_join]
    · rfl

theorem joinPrev_scale (u : List Area) (b : Area) (w : List Area) :
    joinPrev (u.map (Area.scale K)) ((b :: w).map (Area.scale K))
      = (joinPrev u (b :: w)).map (Area.scale K) := by
  rcases List.eq_nil_or_concat u with rfl | ⟨u, p, rfl⟩
  · rfl
  · rw [List.concat_eq_append, List.map_append, List.map_cons, List.map_cons, List.map_nil,
      joinPrev_concat, joinPrev_concat]
    simp only [scale_touches hK]
    split_ifs with h
    · rw [List.map_append, List.map_cons, Area.scale_join]
    · rw [List.map_append, List.map_cons, List.map_cons]

theorem addArea_scale (u : List Area) (a : Area) (v : List Area) :
    addArea (u.map (Area.scale K)) (a.scale K) (v.map (Area.scale K))
      = (addArea u a v).map (Area.scale K) := by
  unfold addArea
  rw [joinNext_scale hK]
  rcases hj : joinNext a v with _ | ⟨b, w⟩
  · rfl
  · exact joinPrev_scale hK u b w

theorem takeArea_scale (u : List Area) (a : Area) (v : List Area) (n : ℕ) :
    takeArea (u.map (Area.scale K)) (a.scale K) (v.map (Area.scale K)) (n * K)
      = (takeArea u a v n).map (Area.scale K) := by
  have hsize : (a.scale K).size = n * K ↔ a.size = n := Nat.mul_left_inj hK.ne'
  unfold takeArea
  simp only [hsize]
  split_ifs with h
  · rw [List.map_append]
  · rw [List.map_append, List.map_cons]
    simp only [Area.scale, Nat.add_mul, Nat.sub_mul]

end Scale

/-- `B` are the areas `A` counted in frames, and `S` their frames. -/
structure InFrames (K N : ℕ) (B A : List Area) (S : Set ℕ) : Prop where
  scale : A = B.map (Area.scale K)
  apart : Apart B
  pos : ∀ b ∈ B, 0 < b.size
  stop : ∀ b ∈ B, b.stop ≤ N
  covers : covered B = S

/-- `A` are the areas of the frames `S`. -/
def Frames (K N : ℕ) (A : List Area) (S : Set ℕ) : Prop := ∃ B, InFrames K N B A S

theorem Area.bytes_finite (a : Area) : a.bytes.Finite := Set.finite_Ico _ _

theorem Area.ncard_bytes (a : Area) : a.bytes.ncard = a.size := by
  unfold Area.bytes Area.stop
  rw [← Finset.coe_Ico, Set.ncard_coe_finset, Nat.card_Ico, Nat.add_sub_cancel_left]

theorem covered_finite : ∀ B : List Area, (covered B).Finite
  | [] => by simp
  | b :: B => by
    rw [covered_cons]
    exact b.bytes_finite.union (covered_finite B)

/-- Areas that are apart have as many numbers as their sizes add up to. -/
theorem Apart.ncard_covered : ∀ {B : List Area}, Apart B →
    (covered B).ncard = (B.map Area.size).sum
  | [], _ => by simp
  | b :: B, h => by
    have hdisj : Disjoint b.bytes (covered B) := Set.disjoint_left.2 fun x hx hx' =>
      absurd (h.disjoint_right hx') (Nat.not_lt.2 hx.2.le)
    rw [covered_cons, Set.ncard_union_eq hdisj b.bytes_finite (covered_finite B), b.ncard_bytes,
      List.map_cons, List.sum_cons, Apart.ncard_covered (List.isChain_cons.1 h).2]

namespace Frames

variable {K N f n : ℕ} {A A' u v : List Area} {S : Set ℕ} {a : Area}

/-- Areas in whole frames are the areas of some frames. -/
theorem exists_of_aligned (hK : 0 < K) (hA : Apart A)
    (hpages : ∀ a ∈ A, a.start % K = 0 ∧ a.size % K = 0) (hpos : ∀ a ∈ A, 0 < a.size)
    (hstop : ∀ a ∈ A, a.stop ≤ N * K) : ∃ S, Frames K N A S := by
  have hscale : ∀ a ∈ A, Area.scale K ⟨a.start / K, a.size / K⟩ = a := by
    intro a ha
    obtain ⟨h1, h2⟩ := hpages a ha
    simp only [Area.scale, Nat.div_mul_cancel (Nat.dvd_of_mod_eq_zero h1),
      Nat.div_mul_cancel (Nat.dvd_of_mod_eq_zero h2)]
  have hmap : A = (A.map fun a => ⟨a.start / K, a.size / K⟩).map (Area.scale K) := by
    rw [List.map_map]
    conv_lhs => rw [← List.map_id A]
    exact List.map_congr_left fun a ha => (hscale a ha).symm
  refine ⟨_, A.map fun a => ⟨a.start / K, a.size / K⟩, hmap, ?_, ?_, ?_, rfl⟩
  · rw [hmap] at hA
    refine (List.isChain_map (Area.scale K)).1 hA |>.imp fun a b hab => ?_
    unfold Area.Before at hab
    rw [Area.scale_stop] at hab
    exact Nat.lt_of_mul_lt_mul_right hab
  · intro b hb
    obtain ⟨a, ha, rfl⟩ := List.mem_map.1 hb
    have h := hpos a ha
    rw [← hscale a ha] at h
    exact Nat.pos_of_mul_pos_right h
  · intro b hb
    obtain ⟨a, ha, rfl⟩ := List.mem_map.1 hb
    have h := hstop a ha
    rw [← hscale a ha, Area.scale_stop] at h
    exact Nat.le_of_mul_le_mul_right h hK

/-- A frame is missing if no area is as long as all of them. -/
theorem exists_missing (h : Frames K N A S) (hN : 0 < N) (hsize : ∀ a ∈ A, a.size < N * K) :
    ∃ g < N, g ∉ S := by
  obtain ⟨B, hB⟩ := h
  rw [← hB.covers]
  rcases B with _ | ⟨b, B⟩
  · exact ⟨0, hN, by simp⟩
  have hb := hsize (b.scale K) (by rw [hB.scale]; simp)
  have hbN : b.size < N := Nat.lt_of_mul_lt_mul_right hb
  -- the first frame, or the one after the first area
  have hafter : ∀ x ∈ covered B, b.stop < x := fun x hx => hB.apart.disjoint_right hx
  by_cases hstart : b.start = 0
  · refine ⟨b.stop, by simpa [Area.stop, hstart] using hbN, fun hx => ?_⟩
    rw [covered_cons] at hx
    rcases hx with hx | hx
    · exact absurd hx.2 (lt_irrefl _)
    · exact absurd (hafter _ hx) (lt_irrefl _)
  · refine ⟨0, hN, fun hx => ?_⟩
    rw [covered_cons] at hx
    rcases hx with hx | hx
    · exact hstart (Nat.le_zero.1 hx.1)
    · exact absurd (hafter _ hx) (Nat.not_lt_zero _)

/-- The areas are read off the frames. -/
theorem eq (h : Frames K N A S) (h' : Frames K N A' S) : A = A' := by
  obtain ⟨B, hB⟩ := h
  obtain ⟨B', hB'⟩ := h'
  have hBB : B = B' :=
    Apart.eq_of_covered hB.apart hB'.apart hB.pos hB'.pos (hB.covers.trans hB'.covers.symm)
  rw [hB.scale, hB'.scale, hBB]

theorem apart (h : Frames K N A S) (hK : 0 < K) : Apart A := by
  obtain ⟨B, hB⟩ := h
  rw [hB.scale]
  refine (List.isChain_map (Area.scale K)).2 (hB.apart.imp fun a b hab => ?_)
  unfold Area.Before at hab ⊢
  rw [Area.scale_stop]
  exact Nat.mul_lt_mul_of_pos_right hab hK

/-- The frames are those that start in an area. -/
theorem mem_iff (h : Frames K N A S) (hK : 0 < K) : f ∈ S ↔ f * K ∈ covered A := by
  obtain ⟨B, hB⟩ := h
  have hbytes : ∀ b : Area, f ∈ b.bytes ↔ f * K ∈ (b.scale K).bytes := by
    intro b
    unfold Area.bytes
    rw [Set.mem_Ico, Set.mem_Ico, Area.scale_stop]
    exact and_congr (Nat.mul_le_mul_right_iff hK).symm (Nat.mul_lt_mul_right hK).symm
  rw [← hB.covers, hB.scale]
  constructor
  · rintro ⟨b, hb, hf⟩
    exact ⟨b.scale K, List.mem_map_of_mem hb, (hbytes b).1 hf⟩
  · rintro ⟨a, ha, hf⟩
    obtain ⟨b, hb, rfl⟩ := List.mem_map.1 ha
    exact ⟨b, hb, (hbytes b).2 hf⟩

/-- A list of areas split is a list of areas counted in frames split. -/
theorem split (h : Frames K N (u ++ v) S) : ∃ u' v', InFrames K N (u' ++ v') (u ++ v) S
    ∧ u = u'.map (Area.scale K) ∧ v = v'.map (Area.scale K) := by
  obtain ⟨B, hB⟩ := h
  obtain ⟨u', v', rfl, hu, hv⟩ := List.append_eq_map_iff.1 hB.scale
  exact ⟨u', v', hB, hu.symm, hv.symm⟩

/-- No area ends after the last frame, nor is as long as all the frames when one is missing. -/
theorem bounds (h : Frames K N A S) (hK : 0 < K) {g : ℕ} (hg : g < N) (hgS : g ∉ S) (ha : a ∈ A) :
    0 < a.size ∧ a.size < N * K ∧ a.stop ≤ N * K := by
  obtain ⟨B, hB⟩ := h
  rw [hB.scale] at ha
  obtain ⟨b, hb, rfl⟩ := List.mem_map.1 ha
  have hpos := hB.pos b hb
  have hstop := hB.stop b hb
  have hgb : g ∉ b.bytes := fun hgb => hgS (hB.covers ▸ ⟨b, hb, hgb⟩)
  have hsize : b.size < N := by
    simp only [Area.bytes, Area.stop, Set.mem_Ico] at hgb hstop
    omega
  refine ⟨Nat.mul_pos hpos hK, Nat.mul_lt_mul_of_pos_right hsize hK, ?_⟩
  rw [Area.scale_stop]
  exact Nat.mul_le_mul_right K hstop

/-- Frames taken from the front of an area. -/
theorem take (h : Frames K N (u ++ a :: v) S) (hK : 0 < K) (hn : n * K ≤ a.size) :
    ∃ f, a.start = f * K ∧ f + n ≤ N ∧ (∀ i, f ≤ i → i < f + n → i ∈ S)
      ∧ Frames K N (takeArea u a v (n * K)) (S \ Set.Ico f (f + n)) := by
  obtain ⟨u', w, hB, hu, hv⟩ := h.split
  obtain ⟨b, v', rfl, rfl, rfl⟩ := List.map_eq_cons_iff.1 hv.symm
  have hnb : n ≤ b.size := Nat.le_of_mul_le_mul_right hn hK
  have hstop := hB.stop b (by simp)
  obtain ⟨h1, h2⟩ := takeArea_spec hB.apart hnb
  refine ⟨b.start, rfl, ?_, fun i h1 h2 => ?_, takeArea u' b v' n, ?_, h1, ?_, ?_, ?_⟩
  · simp only [Area.stop] at hstop
    omega
  · rw [← hB.covers]
    refine ⟨b, by simp, h1, ?_⟩
    simp only [Area.stop]
    omega
  · rw [hu, takeArea_scale hK]
  · exact takeArea_pos hB.pos hnb
  · refine forall_mem_takeArea hB.stop fun _ hb => ?_
    simp only [Area.stop] at hb ⊢
    omega
  · rw [h2, hB.covers]

/-- Frames that are missing are clear of the areas. -/
theorem clear (h : Frames K N A S) (hn : 0 < n) (hf : Disjoint (Set.Ico f (f + n)) S) :
    Clear ⟨f * K, n * K⟩ A := by
  obtain ⟨B, hB⟩ := h
  rw [hB.scale]
  intro x hx
  obtain ⟨b, hb, rfl⟩ := List.mem_map.1 hx
  have hdisj : Disjoint (Area.bytes ⟨f, n⟩) (covered B) := hB.covers ▸ hf
  have hside : b.stop ≤ f ∨ f + n ≤ b.start := Clear.of_disjoint hn hB.pos hdisj b hb
  rw [Area.scale_stop]
  refine hside.imp (fun hle => Nat.mul_le_mul_right K hle) fun hle => ?_
  show f * K + n * K ≤ b.start * K
  rw [← Nat.add_mul]
  exact Nat.mul_le_mul_right K hle

/-- Frames added where they fit. -/
theorem add (h : Frames K N (u ++ v) S) (hK : 0 < K) (hn : 0 < n) (hf : f + n ≤ N)
    (hfit : Fits u ⟨f * K, n * K⟩ v) :
    Frames K N (addArea u ⟨f * K, n * K⟩ v) (S ∪ Set.Ico f (f + n)) := by
  obtain ⟨u', v', hB, rfl, rfl⟩ := h.split
  have hscale : (⟨f * K, n * K⟩ : Area) = Area.scale K ⟨f, n⟩ := rfl
  rw [hscale] at hfit ⊢
  have hfit' : Fits u' ⟨f, n⟩ v' := by
    refine ⟨fun p hp => ?_, fun c hc => ?_⟩
    · have := hfit.1 (p.scale K) (by simp only [List.getLast?_map]; exact Option.mem_map_of_mem _ hp)
      rw [Area.scale_stop] at this
      exact Nat.le_of_mul_le_mul_right this hK
    · have := hfit.2 (c.scale K) (by simp only [List.head?_map]; exact Option.mem_map_of_mem _ hc)
      rw [Area.scale_stop] at this
      exact Nat.le_of_mul_le_mul_right this hK
  obtain ⟨h1, h2⟩ := addArea_spec hB.apart hfit'
  refine ⟨addArea u' ⟨f, n⟩ v', addArea_scale hK _ _ _, h1, ?_, ?_, ?_⟩
  · refine forall_mem_addArea (fun x y _ hx hy => ?_) hB.pos hn
    exact Nat.add_pos_left hx _
  · refine forall_mem_addArea (fun x y hxy hx hy => ?_) hB.stop hf
    rw [Area.join_stop hxy]
    exact hy
  · rw [h2, hB.covers]
    rfl

/-! ## How many there are -/

theorem finite (h : Frames K N A S) : S.Finite := by
  obtain ⟨B, hB⟩ := h
  refine (Set.finite_Iio N).subset fun x hx => ?_
  rw [← hB.covers] at hx
  obtain ⟨b, hb, hx⟩ := hx
  exact hx.2.trans_le (hB.stop b hb)

/-- The number of frames is read off the areas. -/
theorem ncard_eq (h : Frames K N A S) (hK : 0 < K) : S.ncard = (A.map Area.size).sum / K := by
  obtain ⟨B, hB⟩ := h
  have hsum : (A.map Area.size).sum = (B.map Area.size).sum * K := by
    rw [hB.scale, List.map_map]
    exact List.sum_map_mul_right _ _ K
  rw [hsum, Nat.mul_div_cancel _ hK, ← hB.covers, hB.apart.ncard_covered]

end Frames

end RTLKIM

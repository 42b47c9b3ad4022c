import RTLKIM.Proofs.MemAllocOps
import RTLKIM.Lib.Frame

/-!
# The frames of the pool

`add_free` reads no link back, so what it does to the list along `next` does not depend on the links
back, stale or not (`addFree_forward`). The pool is then followed by the frames it holds: `Linked`
while its links are right both ways, which `get_block` needs, and `Chained` along `next` only, which
is what frees leave.
-/

namespace RTLKIM

namespace Pool

variable {P Q : Pool} {l : List ℕ} {S : Set ℕ} {n f start size node : ℕ}

/-! ## `add_free` reads no link back -/

section Forward

variable {a : MemArea}

theorem setNode_forward : (P.setNode n a).forward = P.forward.setNode n { a with prev := 0 } := by
  unfold forward setNode
  congr 1
  funext x
  by_cases hx : x = n
  · subst hx
    simp only [Function.update_self]
  · simp only [Function.update_of_ne hx]

theorem newNode_forward :
    (P.newNode n a).forward = P.forward.newNode n { a with prev := 0 } := by
  have h := congrArg Pool.nodes (setNode_forward (P := P) (n := n) (a := a))
  unfold newNode forward at *
  simp only at h ⊢
  rw [h]
  rfl

theorem setSize_forward (w : ℕ) : (P.setSize n w).forward = P.forward.setSize n w := setNode_forward

theorem setStart_forward (w : ℕ) : (P.setStart n w).forward = P.forward.setStart n w :=
  setNode_forward

theorem setNext_forward (w : ℕ) : (P.setNext n w).forward = P.forward.setNext n w := setNode_forward

theorem kfree_forward : (P.kfree n).forward = P.forward.kfree n := rfl

theorem setList_forward (m : ℕ) :
    ({ P with list := m } : Pool).forward = { P.forward with list := m } := rfl

theorem area_of_forward (h : Q.forward = P.forward) (n : ℕ) : Q.area n = P.area n :=
  (congrArg (fun R : Pool => R.area n) h : Q.forward.area n = P.forward.area n)

theorem alive_of_forward (h : Q.forward = P.forward) : Q.alive = P.alive :=
  (congrArg Pool.alive h : Q.forward.alive = P.forward.alive)

theorem search_forward (start : ℕ) : ∀ fuel cursor save : ℕ,
    P.forward.search start fuel cursor save = P.search start fuel cursor save
  | 0, _, _ => rfl
  | fuel + 1, cursor, save => by
    unfold search
    rw [search_forward start fuel]
    rfl

theorem link_forward (start size node cursor save : ℕ) :
    (P.link start size node cursor save).forward
      = (P.forward.link start size node cursor save).forward := by
  have hn : ∀ x, P.forward.nodes x = { P.nodes x with prev := 0 } := fun _ => rfl
  have hff : P.forward.forward = P.forward := rfl
  unfold link
  simp only [hn]
  split_ifs <;> simp only [setSize_forward, setStart_forward, setNext_forward, setPrev_forward,
    setList_forward, kfree_forward, newNode_forward, hff]

theorem addFree_forward (start size node : ℕ) :
    (P.addFree start size node).map (fun r => (r.1.forward, r.2))
      = (P.forward.addFree start size node).map (fun r => (r.1.forward, r.2)) := by
  have hn : ∀ x, P.forward.nodes x = { P.nodes x with prev := 0 } := fun _ => rfl
  have halive : P.forward.alive = P.alive := rfl
  have hlist : P.forward.list = P.list := rfl
  unfold addFree
  rw [search_forward, halive, hlist]
  split_ifs with h
  · simp only [Option.map_some, setList_forward, newNode_forward]
    rfl
  · rcases P.search start (P.alive.length + 1) P.list P.list with _ | ⟨cursor, save⟩
    · rfl
    · simp only [Option.map_some, hn]
      split_ifs
      · rfl
      · rfl
      · rw [link_forward]

/-- The same call on pools that differ in their links back. -/
theorem addFree_stale {size : ℕ} {err : PoolErr} (hQ : Q.forward = P.forward)
    (h : Q.addFree start size node = some (Q', err)) :
    ∃ P', P.addFree start size node = some (P', err) ∧ Q'.forward = P'.forward := by
  have hP := addFree_forward (P := P) start size node
  rw [← hQ, ← addFree_forward, h] at hP
  obtain ⟨⟨P', err'⟩, hP', heq⟩ := Option.map_eq_some_iff.1 hP
  obtain ⟨h1, rfl⟩ := Prod.mk.inj heq
  exact ⟨P', hP', h1.symm⟩

end Forward

/-! ## An area that is clear of the list -/

/-- `add_free` of an area clear of the list adds it, and leaves a list whose links are right up to
the links back, and right if it fills no gap before an area that is not the last. No area it makes
is as long as the address space. -/
theorem PoolList.addClear (L : P.PoolList l) (hclear : Clear ⟨start, size⟩ (l.map P.area))
    (hpos : 0 < size) (hb : start + size ≤ 2 ^ 32) (hl : ∀ n ∈ l, (P.nodes n).start < 2 ^ 32)
    (hsize : ∀ u v, l = u ++ v → Fits (u.map P.area) ⟨start, size⟩ (v.map P.area) →
      ∀ a ∈ addArea (u.map P.area) ⟨start, size⟩ (v.map P.area), a.size < 2 ^ 32)
    (h0 : node ≠ 0) (hfresh : node ∉ P.alive) :
    ∃ (P' Q : Pool) (u v l' : List ℕ), P.addFree start size node = some (P', .noErr)
      ∧ Q.forward = P'.forward
      ∧ ((∀ w p c x, u = w ++ [p] → v = c :: x → (P.area p).stop = start →
        start + size = (P.nodes c).start → x = []) → Q = P')
      ∧ l = u ++ v ∧ Fits (u.map P.area) ⟨start, size⟩ (v.map P.area) ∧ Q.PoolList l'
      ∧ l'.map Q.area = addArea (u.map P.area) ⟨start, size⟩ (v.map P.area) := by
  by_cases hnil : l = []
  · subst hnil
    have hlist : P.list = 0 := L.dll.head
    exact ⟨_, _, [], [], [node], by rw [Pool.addFree, if_pos hlist], rfl, fun _ => rfl, rfl,
      ⟨by simp, by simp⟩, L.insertOnly start size h0 hfresh⟩
  obtain ⟨u, v, rfl, hu, hv, hcode⟩ := L.addFree_seam hnil start
  -- the seam the loop finds is where the area fits
  have hfit : Fits (u.map P.area) ⟨start, size⟩ (v.map P.area) := by
    rw [List.map_append] at hclear
    refine hclear.fits hpos (fun a ha => ?_) fun a ha => ?_
    · obtain ⟨n, hn, rfl⟩ := List.mem_map.1 ha
      exact hu n hn
    · rw [List.head?_map] at ha
      obtain ⟨n, hn, rfl⟩ := Option.mem_map.1 ha
      exact hv n hn
  have hp : ∀ p ∈ u.getLast?, (P.area p).stop < 2 ^ 32 := by
    intro p hp
    have hle : (P.area p).stop ≤ start := hfit.1 (P.area p) (by rw [List.getLast?_map, hp]; rfl)
    omega
  have hc : v ≠ [] → start + size < 2 ^ 32 := by
    intro hv
    obtain ⟨c, v, rfl⟩ := List.exists_cons_of_ne_nil hv
    have hle : start + size ≤ (P.nodes c).start := hfit.2 (P.area c) (by simp)
    have hlt := hl c (by simp)
    omega
  obtain ⟨Q, l', hQ, hexact, h⟩ := L.linkSeam hnil hfit hp hc (hsize u v rfl hfit) h0 hfresh
  exact ⟨_, Q, u, v, l', (hcode size node hp hc).1 (.inr hfit), hQ, hexact, rfl, hfit, h⟩

/-! ## The frames held -/

/-- The number of frames there are addresses for. -/
abbrev frameCount : ℕ := 2 ^ 20

/-- The pool holds the frames `S`, its links right both ways. -/
def Linked (P : Pool) (S : Set ℕ) : Prop :=
  ∃ l, P.PoolList l ∧ Frames kernelPageSize frameCount (l.map P.area) S

/-- The pool holds the frames `S`, its links right along `next`. -/
def Chained (P : Pool) (S : Set ℕ) : Prop := ∃ Q : Pool, Q.forward = P.forward ∧ Q.Linked S

theorem Linked.chained (h : P.Linked S) : P.Chained S := ⟨P, rfl, h⟩

theorem walk_forward : ∀ fuel m : ℕ, P.forward.walk fuel m = P.walk fuel m
  | 0, _ => rfl
  | fuel + 1, m => by
    unfold walk
    rw [walk_forward fuel]
    rfl

theorem areaList_forward : P.forward.areaList = P.areaList := walk_forward _ _

/-- The areas along `next` are those of the frames. -/
theorem Chained.areas (h : P.Chained S) :
    Frames kernelPageSize frameCount (P.areaList.map P.area) S := by
  obtain ⟨Q, hQ, l, L, hl⟩ := h
  have harea : Q.area = P.area := funext fun n => area_of_forward hQ n
  rw [← L.areaList_eq, harea] at hl
  rwa [← areaList_forward, hQ, areaList_forward] at hl

/-- No area has a frame: there is none. -/
theorem Linked.eq_empty (h : P.Linked S)
    (hsmall : ∀ a ∈ P.areaList.map P.area, a.size < 1 * kernelPageSize) : S = ∅ := by
  obtain ⟨B, hB⟩ := h.chained.areas
  rcases B with _ | ⟨b, B⟩
  · rw [← hB.covers, covered_nil]
  · have hb := hsmall (b.scale kernelPageSize) (by rw [hB.scale]; simp)
    have hpos := hB.pos b (by simp)
    have := Nat.lt_of_mul_lt_mul_right hb
    omega

/-- Nothing given back at the start of the first area leaves the numbers that are covered: it is
refused, or makes an area of no bytes if the first area ends with the address space. -/
theorem PoolList.giveNothing (L : P.PoolList (n :: l)) (hap : Apart ((n :: l).map P.area))
    (hw : P.Words (n :: l)) (hpos : 0 < (P.nodes n).size) (h0 : node ≠ 0) (hfresh : node ∉ P.alive) :
    ∃ P' err, P.addFree (P.nodes n).start 0 node = some (P', err)
      ∧ covered (P'.areaList.map P'.area) = covered (P.areaList.map P.area) := by
  have hn0 : n ≠ 0 := L.ne_zero (by simp)
  have hlist : P.list = n := L.dll.head
  have hafter : ∀ m ∈ l, (P.area n).stop < (P.nodes m).start := by
    intro m hm
    exact (List.pairwise_cons.1 (List.pairwise_map.1 hap.pairwise)).1 m hm
  obtain ⟨u, v, huv, hu, hv, hsearch⟩ := L.search_eq (P.nodes n).start
  -- the loop stops after the first node
  obtain ⟨rfl, rfl⟩ : u = [n] ∧ v = l := by
    rcases u with _ | ⟨m, u⟩
    · rw [List.nil_append] at huv
      subst huv
      exact absurd (hv n rfl) (lt_irrefl _)
    · obtain ⟨rfl, hl⟩ := List.cons.inj huv
      rcases u with _ | ⟨m, u⟩
      · exact ⟨rfl, hl.symm⟩
      · have h1 := hafter m (by rw [hl]; simp)
        have h2 := hu m (by simp)
        simp only [Area.stop, area] at h1
        omega
  have hne : n ≠ v.headD 0 := by
    rcases v with _ | ⟨c, v⟩
    · exact hn0
    · rintro rfl
      have := hafter n (by simp)
      simp only [Area.stop, area] at this
      omega
  unfold Pool.addFree
  rw [if_neg (by rwa [hlist]), hsearch, Option.map_some]
  have hlast : (if [n] = [] then v.headD 0 else lastD [n]) = n := if_neg (by simp)
  simp only [hlast]
  by_cases hstop : (P.area n).stop < 2 ^ 32
  · have hsum : add32 (P.nodes n).start (P.nodes n).size = (P.area n).stop := add32_of_lt hstop
    have hin : (P.nodes n).start < (P.area n).stop := Nat.lt_add_of_pos_right hpos
    rw [hsum, if_pos ⟨hne, hin⟩]
    exact ⟨P, _, rfl, rfl⟩
  · -- the area ends with the address space, so it is the last one and its end is read as 0
    obtain ⟨hsize, hle⟩ := hw n (by simp)
    have hend : (P.nodes n).start + (P.nodes n).size = 2 ^ 32 := le_antisymm hle (Nat.not_lt.1 hstop)
    obtain rfl : v = [] := by
      rcases v with _ | ⟨c, v⟩
      · rfl
      · have h1 := hafter c (by simp)
        have h2 := (hw c (by simp)).2
        simp only [Area.stop, area] at h1 h2
        omega
    have hsum : add32 (P.nodes n).start (P.nodes n).size = 0 := add32_of_eq hend
    have hstart : (0 : ℕ) ≠ (P.nodes n).start := by
      simp only [area] at hsize
      omega
    have L₁ : P.PoolList ([] ++ [n]) := L
    obtain ⟨L', harea⟩ := L₁.insertLast (P.nodes n).start 0 h0 hfresh
    have hlink : P.link (P.nodes n).start 0 node 0 n
        = (P.newNode node ⟨(P.nodes n).start, 0, 0, n⟩).setNext n node := by
      unfold link
      simp only [hsum]
      rw [if_pos trivial, if_pos hstart]
    rw [hsum, if_neg (fun h => absurd h.2 (Nat.not_lt_zero _)),
      if_neg (fun h => absurd rfl h.2.1)]
    refine ⟨_, _, rfl, ?_⟩
    rw [List.headD_nil, hlink, L'.areaList_eq, harea, L.areaList_eq]
    simp [Area.bytes, Area.stop]

section Missing

variable {g : ℕ} (hg : g < frameCount) (hgS : g ∉ S)

include hg hgS

/-- `get_block`: no area is long enough and nothing changed, or the frames from `f` on. -/
theorem Linked.getBlock (h : P.Linked S) {count : ℕ} (hcount : count < frameCount) :
    (P.getBlock count = some (P, 0, .noMoreFreeMem)
        ∧ ∀ a ∈ P.areaList.map P.area, a.size < count * kernelPageSize)
      ∨ ∃ P' f, P.getBlock count = some (P', f * kernelPageSize, .noErr) ∧ f + count ≤ frameCount
        ∧ (∀ i, f ≤ i → i < f + count → i ∈ S) ∧ P'.Linked (S \ Set.Ico f (f + count))
        ∧ ∃ a ∈ P.areaList.map P.area, count * kernelPageSize ≤ a.size := by
  obtain ⟨l, L, hl⟩ := h
  have hw : P.Words l := fun n hn =>
    (hl.bounds (by decide) hg hgS (List.mem_map.2 ⟨n, hn, rfl⟩)).2
  have hneed : count * kernelPageSize < 2 ^ 32 := by
    simp only [kernelPageSize, frameCount] at hcount ⊢
    omega
  rcases L.getBlock hw hneed with ⟨h, hall⟩ | ⟨u, n, v, l', P', h, rfl, hn, L', hl'⟩
  · refine .inl ⟨h, fun a ha => ?_⟩
    rw [L.areaList_eq] at ha
    obtain ⟨n, hn, rfl⟩ := List.mem_map.1 ha
    exact hall n hn
  · rw [List.map_append, List.map_cons] at hl
    obtain ⟨f, h1, h2, h3, h4⟩ := hl.take (by decide) hn
    refine .inr ⟨P', f, ?_, h2, h3, ⟨l', L', ?_⟩, P.area n, ?_, hn⟩
    · rw [← h1]
      exact h
    · rwa [hl']
    · rw [L.areaList_eq]
      simp

/-- A block of no frames is the start of the first area, and leaves the areas. -/
theorem Linked.getNothing (h : P.Linked S) (hb : P.getBlock 0 = some (Q, start, .noErr)) :
    ∃ n l, Q.PoolList (n :: l) ∧ (Q.nodes n).start = start
      ∧ (n :: l).map Q.area = P.areaList.map P.area := by
  obtain ⟨l, L, hl⟩ := h
  have hw : P.Words l := fun n hn =>
    (hl.bounds (by decide) hg hgS (List.mem_map.2 ⟨n, hn, rfl⟩)).2
  have hneed : mul32 kernelPageSize 0 = 0 := mul32_of_lt (by decide)
  rcases L.getBlock_first hw hneed with ⟨hc, -⟩ | ⟨u, n, v, l', P', hc, rfl, -, hu, L', harea⟩
  · rw [hb] at hc
    cases hc
  rw [hb] at hc
  obtain ⟨rfl, rfl, -⟩ : Q = P' ∧ start = (P.nodes n).start ∧ True := by simpa using hc
  obtain rfl : u = [] := by
    rcases u with _ | ⟨m, u⟩
    · rfl
    · exact absurd (hu m (by simp)) (Nat.not_lt_zero _)
  have hpos : (P.area n).size ≠ 0 := by
    have := (hl.bounds (by decide) hg hgS (List.mem_map.2 ⟨n, by simp, rfl⟩)).1
    exact this.ne'
  have hsame : l'.map Q.area = P.area n :: v.map P.area := by
    rw [harea, takeArea, if_neg hpos]
    rfl
  obtain ⟨n', w, rfl, harea', -⟩ := List.map_eq_cons_iff.1 hsame
  refine ⟨n', w, L', congrArg Area.start harea', ?_⟩
  rw [hsame, L.areaList_eq]
  rfl

/-- Taking no frames and giving them back leaves the numbers that are covered. -/
theorem Linked.giveNothing (h : P.Linked S) (hb : P.getBlock 0 = some (Q, start, .noErr))
    (h0 : node ≠ 0) (hfresh : node ∉ Q.alive) :
    ∃ Q' err, Q.addFree start 0 node = some (Q', err)
      ∧ covered (Q'.areaList.map Q'.area) = covered (P.areaList.map P.area) := by
  obtain ⟨n, l, L, rfl, harea⟩ := h.getNothing hg hgS hb
  have hl := h.chained.areas
  rw [← harea] at hl
  have hbounds : ∀ m ∈ n :: l, _ := fun m hm =>
    hl.bounds (by decide) hg hgS (List.mem_map_of_mem hm)
  obtain ⟨Q', err, hadd, hcov⟩ := L.giveNothing (hl.apart (by decide)) (fun m hm => (hbounds m hm).2)
    (hbounds n (by simp)).1 h0 hfresh
  refine ⟨Q', err, hadd, ?_⟩
  rw [hcov, L.areaList_eq, harea]

/-- Frames given back. -/
theorem Chained.addFree {count : ℕ} (h : P.Chained S) (hpos : 0 < count)
    (hf : f + count ≤ frameCount) (hfS : Disjoint (Set.Ico f (f + count)) S)
    (hgf : g ∉ Set.Ico f (f + count)) (h0 : node ≠ 0) (hfresh : node ∉ P.alive) :
    ∃ P', P.addFree (f * kernelPageSize) (count * kernelPageSize) node = some (P', .noErr)
      ∧ P'.Chained (S ∪ Set.Ico f (f + count)) := by
  obtain ⟨Q, hQ, l, L, hl⟩ := h
  have hmem : ∀ n ∈ l, Q.area n ∈ l.map Q.area := fun n hn => List.mem_map.2 ⟨n, hn, rfl⟩
  have hend : f * kernelPageSize + count * kernelPageSize ≤ 2 ^ 32 := by
    simp only [kernelPageSize, frameCount] at hf ⊢
    omega
  have hstart : ∀ n ∈ l, (Q.nodes n).start < 2 ^ 32 := by
    intro n hn
    have := hl.bounds (by decide) hg hgS (hmem n hn)
    simp only [Area.stop, area, kernelPageSize, frameCount] at this
    omega
  have hgS' : g ∉ S ∪ Set.Ico f (f + count) := fun hx => hx.elim hgS hgf
  have hsize : ∀ u v, l = u ++ v →
      Fits (u.map Q.area) ⟨f * kernelPageSize, count * kernelPageSize⟩ (v.map Q.area) →
      ∀ a ∈ addArea (u.map Q.area) ⟨f * kernelPageSize, count * kernelPageSize⟩ (v.map Q.area),
        a.size < 2 ^ 32 := by
    intro u v huv hfit a ha
    rw [huv, List.map_append] at hl
    have hadd := hl.add (by decide) hpos hf hfit
    exact (hadd.bounds (by decide) hg hgS' ha).2.1
  obtain ⟨Q', R, u, v, l', h1, h2, -, rfl, h4, h5, h6⟩ := L.addClear (hl.clear hpos hfS)
    (Nat.mul_pos hpos (by decide)) hend hstart hsize h0 (alive_of_forward hQ ▸ hfresh)
  rw [List.map_append] at hl
  have hadd := hl.add (by decide) hpos hf h4
  obtain ⟨P', hP', h7⟩ := addFree_stale hQ h1
  exact ⟨P', hP', R, h2.trans h7, l', h5, h6 ▸ hadd⟩

end Missing

end Pool

end RTLKIM

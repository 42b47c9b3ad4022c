import RTLKIM.Proofs.MemAllocList

/-!
# The operations of the pool on its areas

`add_free` past its checks is `addArea` at the seam its loop found, shape by shape, except that it
leaves a stale `prev` when it joins two areas of which the second is not the last; `get_block` is
`takeArea` of the first area large enough.
-/

namespace RTLKIM

namespace Pool

variable {P : Pool} {l u v : List ℕ} {n p c start size node : ℕ}

/-- The ends of the areas are addresses. -/
def Bounded (P : Pool) (l : List ℕ) : Prop := ∀ n ∈ l, (P.area n).stop < 2 ^ 32

/-- The sizes are words, and no area runs past the last address. -/
def Words (P : Pool) (l : List ℕ) : Prop :=
  ∀ n ∈ l, (P.area n).size < 2 ^ 32 ∧ (P.area n).stop ≤ 2 ^ 32

theorem Bounded.words (h : P.Bounded l) : P.Words l := by
  intro n hn
  have := h n hn
  simp only [Area.stop] at this ⊢
  omega

/-! ## `add_free` -/

/-- The node before grows over the area. -/
theorem PoolList.growPrev (L : P.PoolList (u ++ p :: v)) (start k : ℕ)
    (hsize : (P.nodes p).size + k < 2 ^ 32) :
    (P.setSize p (add32 (P.nodes p).size k)).PoolList (u ++ p :: v)
      ∧ (u ++ p :: v).map (P.setSize p (add32 (P.nodes p).size k)).area
        = u.map P.area ++ (P.area p).join ⟨start, k⟩ :: v.map P.area := by
  have := L.resize ((P.area p).join ⟨start, k⟩)
  rw [add32_of_lt hsize]
  exact this

/-- The node after grows over the area. -/
theorem PoolList.growNext (L : P.PoolList (u ++ c :: v))
    (hsize : (P.nodes c).size + size < 2 ^ 32) :
    ((P.setSize c (add32 (P.nodes c).size size)).setStart c start).PoolList (u ++ c :: v)
      ∧ (u ++ c :: v).map ((P.setSize c (add32 (P.nodes c).size size)).setStart c start).area
        = u.map P.area ++ (Area.join ⟨start, size⟩ (P.area c)) :: v.map P.area := by
  have h := L.resize (Area.join ⟨start, size⟩ (P.area c))
  have heq : (P.setSize c (add32 (P.nodes c).size size)).setStart c start
      = P.setNode c ⟨start, size + (P.area c).size, P.nextOf c, P.prevOf c⟩ := by
    unfold setStart setSize
    rw [setNode_self, add32_of_lt hsize, Nat.add_comm]
    simp only [setNode, Function.update_idem]
    rfl
  rw [heq]
  exact h

theorem setNext_area (x m w : ℕ) : (P.setNext m w).area x = P.area x := by
  by_cases h : x = m
  · subst h
    simp [area, setNext]
  · simp [area, setNext, setNode_of_ne h]

theorem setPrev_area (x m w : ℕ) : (P.setPrev m w).area x = P.area x := by
  by_cases h : x = m
  · subst h
    simp [area, setPrev]
  · simp [area, setPrev, setNode_of_ne h]

theorem newNode_area {x : ℕ} {a : MemArea} (h : x ≠ n) : (P.newNode n a).area x = P.area x := by
  simp [area, setNode_of_ne h]

section Link

variable (h0 : node ≠ 0) (hfresh : node ∉ P.alive)

include h0 hfresh

/-- Before the first node. -/
theorem PoolList.linkFirst (L : P.PoolList (c :: v)) (hb : start + size < 2 ^ 32)
    (hsum : start + size = (P.nodes c).start → (P.nodes c).size + size < 2 ^ 32) :
    ∃ l', (P.link start size node c c).PoolList l' ∧ l'.map (P.link start size node c c).area
      = addArea [] ⟨start, size⟩ ((c :: v).map P.area) := by
  have hc0 : c ≠ 0 := L.ne_zero (by simp)
  have hcn : c ≠ node := fun e => hfresh (e ▸ L.alive c (by simp))
  unfold link
  rw [if_neg hc0, if_pos rfl, add32_of_lt hb]
  simp only [addArea, List.map_cons, joinNext]
  by_cases hjoin : start + size = (P.nodes c).start
  · rw [if_pos hjoin, if_pos (show (⟨start, size⟩ : Area).stop = (P.area c).start from hjoin)]
    exact ⟨c :: v, L.growNext (u := []) (hsum hjoin)⟩
  · rw [if_neg hjoin, if_neg (show (⟨start, size⟩ : Area).stop ≠ (P.area c).start from hjoin)]
    refine ⟨node :: c :: v, L.insertNode (u := []) h0 hfresh ?_ (by simp) (fun _ => ?_)
      (fun x hx _ => ?_) (fun x hx hxc => ?_) (fun x hx => ?_) rfl rfl⟩
    · show ((P.newNode node ⟨start, size, c, 0⟩).setPrev c node).nodes node = _
      simp [setPrev, setNode_of_ne hcn.symm]
    · show (((P.newNode node ⟨start, size, c, 0⟩).setPrev c node).nodes c).prev = node
      simp [setPrev]
    · have hxn : x ≠ node := fun e => hfresh (e ▸ L.alive x hx)
      show (((P.newNode node ⟨start, size, c, 0⟩).setPrev c node).nodes x).next = _
      by_cases hxc : x = c
      · subst hxc
        simp [setPrev, setNode_of_ne hxn]
      · simp [setPrev, setNode_of_ne hxc, setNode_of_ne hxn]
    · have hxn : x ≠ node := fun e => hfresh (e ▸ L.alive x hx)
      show (((P.newNode node ⟨start, size, c, 0⟩).setPrev c node).nodes x).prev = _
      simp only [List.headD_cons] at hxc
      simp [setPrev, setNode_of_ne hxc, setNode_of_ne hxn]
    · have hxn : x ≠ node := fun e => hfresh (e ▸ L.alive x hx)
      show ((P.newNode node ⟨start, size, c, 0⟩).setPrev c node).area x = _
      rw [setPrev_area, newNode_area hxn]

variable (start size) in
/-- A new node after the last one. -/
theorem PoolList.insertLast (L : P.PoolList (u ++ [p])) :
    ((P.newNode node ⟨start, size, 0, p⟩).setNext p node).PoolList (u ++ [p] ++ [node])
      ∧ (u ++ [p] ++ [node]).map ((P.newNode node ⟨start, size, 0, p⟩).setNext p node).area
        = (u ++ [p]).map P.area ++ [⟨start, size⟩] := by
  have hpm : p ∈ u ++ [p] := by simp
  have hp0 : p ≠ 0 := L.ne_zero hpm
  have hpn : p ≠ node := fun e => hfresh (e ▸ L.alive p hpm)
  have L' : P.PoolList ((u ++ [p]) ++ []) := by simpa using L
  have hlist : P.list = (u ++ [p]).headD 0 := L.dll.head
  refine L'.insertNode h0 hfresh ?_ (fun _ => ?_) (by simp) (fun x hx hxp => ?_) (fun x hx _ => ?_)
    (fun x hx => ?_) rfl ?_
  · simp [setNext, setNode_of_ne hpn.symm]
  · rw [lastD_concat]
    simp [setNext]
  · have hxn : x ≠ node := fun e => hfresh (e ▸ L'.alive x hx)
    rw [lastD_concat] at hxp
    simp [setNext, setNode_of_ne hxp, setNode_of_ne hxn]
  · have hxn : x ≠ node := fun e => hfresh (e ▸ L'.alive x hx)
    by_cases hxp : x = p
    · subst hxp
      simp [setNext, setNode_of_ne hxn]
    · simp [setNext, setNode_of_ne hxp, setNode_of_ne hxn]
  · have hxn : x ≠ node := fun e => hfresh (e ▸ L'.alive x hx)
    rw [setNext_area, newNode_area hxn]
  · show P.list = _
    rw [hlist]
    rcases u with _ | ⟨b, u⟩
    · rfl
    · rfl

/-- After the last node. -/
theorem PoolList.linkLast (L : P.PoolList (u ++ [p])) (hp : (P.area p).stop < 2 ^ 32)
    (hsum : (P.area p).stop = start → (P.nodes p).size + size < 2 ^ 32) :
    ∃ l', (P.link start size node 0 p).PoolList l' ∧ l'.map (P.link start size node 0 p).area
      = addArea ((u ++ [p]).map P.area) ⟨start, size⟩ [] := by
  have hstop : add32 (P.nodes p).start (P.nodes p).size = (P.area p).stop := add32_of_lt hp
  unfold link
  rw [hstop, if_pos rfl]
  simp only [addArea, List.map_append, List.map_singleton, joinNext, joinPrev_concat]
  by_cases hjoin : (P.area p).stop = start
  · rw [if_neg (not_not.2 hjoin), if_pos hjoin]
    exact ⟨u ++ [p], L.growPrev start size (hsum hjoin)⟩
  · rw [if_pos hjoin, if_neg hjoin]
    rw [List.append_cons, ← List.map_singleton (f := P.area), ← List.map_append]
    exact ⟨u ++ [p] ++ [node], L.insertLast start size h0 hfresh⟩

/-- Between two nodes, when it does not fill the gap. -/
theorem PoolList.linkMid (L : P.PoolList (u ++ p :: c :: v)) (hb : start + size < 2 ^ 32)
    (hp : (P.area p).stop < 2 ^ 32)
    (hsp : (P.area p).stop = start → (P.nodes p).size + size < 2 ^ 32)
    (hsc : start + size = (P.nodes c).start → (P.nodes c).size + size < 2 ^ 32)
    (hgap : (P.area p).stop = start → start + size ≠ (P.nodes c).start) :
    ∃ l', (P.link start size node c p).PoolList l' ∧ l'.map (P.link start size node c p).area
      = addArea ((u ++ [p]).map P.area) ⟨start, size⟩ ((c :: v).map P.area) := by
  have hpm : p ∈ u ++ p :: c :: v := by simp
  have hcm : c ∈ u ++ p :: c :: v := by simp
  have hc0 : c ≠ 0 := L.ne_zero hcm
  have hp0 : p ≠ 0 := L.ne_zero hpm
  have hcn : c ≠ node := fun e => hfresh (e ▸ L.alive c hcm)
  have hpn : p ≠ node := fun e => hfresh (e ▸ L.alive p hpm)
  have hnd := L.dll.nodup
  have hcp : c ≠ p := by
    rintro rfl
    exact (List.nodup_cons.1 (List.nodup_append.1 hnd).2.1).1 List.mem_cons_self
  have hstop : add32 (P.nodes p).start (P.nodes p).size = (P.area p).stop := add32_of_lt hp
  unfold link
  rw [hstop, if_neg hc0, if_neg hcp, add32_of_lt hb]
  simp only [addArea, List.map_append, List.map_cons, List.map_nil, joinNext]
  by_cases hjp : (P.area p).stop = start <;> by_cases hjc : start + size = (P.nodes c).start
  · exact absurd hjc (hgap hjp)
  · rw [if_pos hjp, if_neg hjc, if_neg (show (⟨start, size⟩ : Area).stop ≠ (P.area c).start from hjc),
      joinPrev_concat, if_pos (show (P.area p).stop = start from hjp)]
    exact ⟨u ++ p :: c :: v, L.growPrev start size (hsp hjp)⟩
  · rw [if_neg hjp, if_pos hjc, if_pos (show (⟨start, size⟩ : Area).stop = (P.area c).start from hjc),
      joinPrev_concat, if_neg (show (P.area p).stop ≠ (Area.join ⟨start, size⟩ (P.area c)).start
        from hjp)]
    have L' : P.PoolList ((u ++ [p]) ++ c :: v) := by simpa using L
    rw [List.append_cons, ← List.map_singleton (f := P.area), ← List.map_append]
    exact ⟨u ++ [p] ++ c :: v, L'.growNext (hsc hjc)⟩
  · rw [if_neg hjp, if_neg hjc, if_neg (show (⟨start, size⟩ : Area).stop ≠ (P.area c).start from hjc),
      joinPrev_concat, if_neg (show (P.area p).stop ≠ start from hjp)]
    have L' : P.PoolList ((u ++ [p]) ++ c :: v) := by simpa using L
    have hlist : P.list = (u ++ [p] ++ c :: v).headD 0 := L'.dll.head
    rw [List.append_cons, ← List.map_singleton (f := P.area), ← List.map_append, ← List.map_cons]
    refine ⟨u ++ [p] ++ node :: c :: v, L'.insertNode h0 hfresh ?_ (fun _ => ?_) (fun _ => ?_)
      (fun x hx hxp => ?_) (fun x hx hxc => ?_) (fun x hx => ?_) rfl ?_⟩
    · rw [lastD_concat]
      simp [setNext, setPrev, setNode_of_ne hcn.symm, setNode_of_ne hpn.symm]
    · rw [lastD_concat]
      simp [setNext, setPrev, setNode_of_ne hcp.symm]
    · simp [setNext, setPrev]
    · have hxn : x ≠ node := fun e => hfresh (e ▸ L'.alive x hx)
      rw [lastD_concat] at hxp
      by_cases hxc : x = c
      · subst hxc
        simp [setNext, setPrev, setNode_of_ne hxp, setNode_of_ne hxn]
      · simp [setNext, setPrev, setNode_of_ne hxc, setNode_of_ne hxp, setNode_of_ne hxn]
    · have hxn : x ≠ node := fun e => hfresh (e ▸ L'.alive x hx)
      simp only [List.headD_cons] at hxc
      by_cases hxp : x = p
      · subst hxp
        simp [setNext, setPrev, setNode_of_ne hxc, setNode_of_ne hxn]
      · simp [setNext, setPrev, setNode_of_ne hxc, setNode_of_ne hxp, setNode_of_ne hxn]
    · have hxn : x ≠ node := fun e => hfresh (e ▸ L'.alive x hx)
      rw [setPrev_area, setNext_area, newNode_area hxn]
    · show P.list = _
      rw [hlist]
      rcases u with _ | ⟨b, u⟩
      · rfl
      · rfl

end Link

/-! ## Links back forgotten -/

/-- The pool without its links back. -/
def forward (P : Pool) : Pool := { P with nodes := fun n => { P.nodes n with prev := 0 } }

theorem setPrev_forward (n m : ℕ) : (P.setPrev n m).forward = P.forward := by
  unfold forward
  congr 1
  funext x
  by_cases hx : x = n
  · rw [hx, setPrev, setNode_self]
  · rw [setPrev, setNode_of_ne hx]

/-- `save` grown over the gap and over `cursor`, which is given back: the list is one node shorter,
and the links are right once the node after points back to `save`. -/
theorem PoolList.fillGap (L : P.PoolList (u ++ p :: c :: v)) (start k : ℕ)
    (hsize : (P.nodes p).size + k < 2 ^ 32) {R : Pool}
    (hR : R = ((P.setSize p (add32 (P.nodes p).size k)).setNext p (P.nodes c).next).kfree c) :
    ∃ Q, Q.forward = R.forward ∧ (v = [] → Q = R) ∧ Q.PoolList (u ++ p :: v)
      ∧ (u ++ p :: v).map Q.area
        = u.map P.area ++ (P.area p).join ⟨start, k⟩ :: v.map P.area := by
  obtain ⟨L₁, ha₁⟩ := L.growPrev start k hsize
  set P₁ := P.setSize p (add32 (P.nodes p).size k) with hP₁
  have hsplit : u ++ p :: c :: v = (u ++ [p]) ++ c :: v := by simp
  have hnext : (P.nodes c).next = v.headD 0 := L.next_of_split hsplit
  have L₂ : P₁.PoolList ((u ++ [p]) ++ c :: v) := hsplit ▸ L₁
  have hlist : P₁.list = ((u ++ [p]) ++ c :: v).headD 0 := L₂.dll.head
  have hp0 : p ≠ 0 := L.ne_zero (by simp)
  have hpd : p ≠ v.headD 0 := by
    intro e
    have hnd := L.dll.nodup
    rcases headD_mem v with h | h
    · exact hp0 (e.trans h)
    · have := (List.nodup_append.1 hnd).2.1
      rw [← e] at h
      exact (List.nodup_cons.1 this).1 (List.mem_cons_of_mem _ h)
  rw [hnext] at hR
  have hRn : ∀ x, x ≠ p → R.nodes x = P₁.nodes x := by
    intro x hx
    rw [hR]
    exact setNode_of_ne hx
  have hRp : R.nodes p = { P₁.nodes p with next := v.headD 0 } := by
    rw [hR]
    exact setNode_self
  have hRa : ∀ x, R.area x = P₁.area x := by
    intro x
    rw [hR]
    exact setNext_area x p _
  have hhead : P₁.list = ((u ++ [p]) ++ v).headD 0 :=
    hlist.trans (by rcases u with _ | ⟨b, u⟩ <;> rfl)
  -- what `Q` has to be
  have key : ∀ Q : Pool, Q.alive = R.alive → Q.list = R.list → (∀ x, Q.area x = R.area x) →
      (∀ x, (Q.nodes x).next = (R.nodes x).next) →
      (∀ x, x ≠ v.headD 0 → (Q.nodes x).prev = (R.nodes x).prev) →
      (v.headD 0 ≠ 0 → (Q.nodes (v.headD 0)).prev = p) → Q.PoolList (u ++ p :: v)
        ∧ (u ++ p :: v).map Q.area
          = u.map P.area ++ (P.area p).join ⟨start, k⟩ :: v.map P.area := by
    intro Q h1 h2 h3 h4 h5 h6
    have hu : lastD (u ++ [p]) ≠ 0 → (Q.nodes (lastD (u ++ [p]))).next = v.headD 0 := by
      rw [lastD_concat, h4, hRp]
      exact fun _ => rfl
    have hv : v.headD 0 ≠ 0 → (Q.nodes (v.headD 0)).prev = lastD (u ++ [p]) := by
      rw [lastD_concat]
      exact h6
    have hnx : ∀ x ∈ u ++ [p] ++ v, x ≠ lastD (u ++ [p]) →
        (Q.nodes x).next = (P₁.nodes x).next := by
      intro x _ hx
      rw [lastD_concat] at hx
      rw [h4, hRn x hx]
    have hpv : ∀ x ∈ u ++ [p] ++ v, x ≠ v.headD 0 → (Q.nodes x).prev = (P₁.nodes x).prev := by
      intro x _ hx
      rw [h5 x hx]
      by_cases hxp : x = p
      · rw [hxp, hRp]
      · rw [hRn x hxp]
    obtain ⟨k1, k2⟩ := L₂.eraseNode Q hu hv hnx hpv (fun x _ => (h3 x).trans (hRa x))
      (h1.trans (by rw [hR]; rfl)) (h2.trans ((by rw [hR]; rfl : R.list = P₁.list).trans hhead))
    have happ : u ++ [p] ++ v = u ++ p :: v := by simp
    rw [happ] at k1 k2
    refine ⟨k1, k2.trans ?_⟩
    have ha₂ : (u ++ [p]).map P₁.area ++ (P₁.area c :: v.map P₁.area)
        = (u.map P.area ++ [(P.area p).join ⟨start, k⟩]) ++ (P.area c :: v.map P.area) := by
      simpa using ha₁
    obtain ⟨e1, e2⟩ := List.append_inj ha₂ (by simp)
    rw [e1, (List.cons.inj e2).2]
    simp
  by_cases hd : v.headD 0 = 0
  · exact ⟨R, rfl, fun _ => rfl,
      key R rfl rfl (fun _ => rfl) (fun _ => rfl) (fun _ _ => rfl) fun h => absurd hd h⟩
  · refine ⟨R.setPrev (v.headD 0) p, setPrev_forward _ _, fun hv => absurd (by rw [hv]; rfl) hd,
      key _ rfl rfl (fun x => setPrev_area x _ _) (fun x => ?_) (fun x hx => ?_) fun _ => ?_⟩
    · by_cases hx : x = v.headD 0
      · rw [hx, setPrev, setNode_self]
      · rw [setPrev, setNode_of_ne hx]
    · rw [setPrev, setNode_of_ne hx]
    · rw [setPrev, setNode_self]

/-- Between two nodes, when it fills the gap. -/
theorem PoolList.linkFill (L : P.PoolList (u ++ p :: c :: v)) (node : ℕ)
    (hb : start + size < 2 ^ 32) (hp : (P.area p).stop < 2 ^ 32) (hjp : (P.area p).stop = start)
    (hjc : start + size = (P.nodes c).start)
    (hsum : (P.nodes p).size + (size + (P.nodes c).size) < 2 ^ 32) :
    ∃ Q, Q.forward = (P.link start size node c p).forward
      ∧ (v = [] → Q = P.link start size node c p) ∧ ∃ l', Q.PoolList l'
      ∧ l'.map Q.area = addArea ((u ++ [p]).map P.area) ⟨start, size⟩ ((c :: v).map P.area) := by
  have hcm : c ∈ u ++ p :: c :: v := by simp
  have hc0 : c ≠ 0 := L.ne_zero hcm
  have hcp : c ≠ p := by
    rintro rfl
    exact (List.nodup_cons.1 (List.nodup_append.1 L.dll.nodup).2.1).1 List.mem_cons_self
  have hstop : add32 (P.nodes p).start (P.nodes p).size = (P.area p).stop := add32_of_lt hp
  have hadd : add32 size (P.nodes c).size = size + (P.nodes c).size := add32_of_lt (by omega)
  have hlink : P.link start size node c p
      = ((P.setSize p (add32 (P.nodes p).size (size + (P.nodes c).size))).setNext p
        (P.nodes c).next).kfree c := by
    unfold link
    rw [hstop, if_neg hc0, if_neg hcp, if_pos hjp, add32_of_lt hb, if_pos hjc, hadd]
  obtain ⟨Q, h1, h2, h3, h4⟩ := L.fillGap start (size + (P.nodes c).size) hsum hlink
  refine ⟨Q, h1, h2, u ++ p :: v, h3, h4.trans ?_⟩
  simp only [addArea, List.map_append, List.map_cons, List.map_nil, joinNext]
  rw [if_pos (show (⟨start, size⟩ : Area).stop = (P.area c).start from hjc), joinPrev_concat,
    if_pos (show (P.area p).stop = (Area.join ⟨start, size⟩ (P.area c)).start from hjp)]
  rfl

/-! ## The seam -/

/-- `save_cursor` when the loop stops between `u` and `v`. -/
def saveAt (u v : List ℕ) : ℕ := if u = [] then v.headD 0 else lastD u

theorem saveAt_nil : saveAt [] (c :: v) = c := rfl

theorem saveAt_concat : saveAt (u ++ [p]) v = p := by
  unfold saveAt
  rw [if_neg (by simp), lastD_concat]

theorem fits_concat (a : Area) : Fits ((u ++ [p]).map P.area) a (v.map P.area)
    ↔ (P.area p).stop ≤ a.start ∧ ∀ c ∈ v.head?, a.stop ≤ (P.nodes c).start := by
  unfold Fits
  rw [List.head?_map]
  simp [area]

/-- The first node of an empty list. -/
theorem PoolList.insertOnly (L : P.PoolList []) (start size : ℕ) (h0 : node ≠ 0)
    (hfresh : node ∉ P.alive) :
    ({ P.newNode node ⟨start, size, 0, 0⟩ with list := node } : Pool).PoolList [node]
      ∧ [node].map ({ P.newNode node ⟨start, size, 0, 0⟩ with list := node } : Pool).area
        = [⟨start, size⟩] :=
  PoolList.insertNode (u := []) (v := []) L h0 hfresh setNode_self (by simp) (by simp) (by simp)
    (by simp) (by simp) rfl rfl

/-- The node before a seam is not the one after it. -/
theorem PoolList.ne_headD (L : P.PoolList (u ++ [p] ++ v)) : p ≠ v.headD 0 := by
  intro e
  have hnd := L.dll.nodup
  rcases headD_mem v with h | h
  · exact L.ne_zero (by simp) (e.trans h)
  · exact (List.nodup_append.1 hnd).2.2 p (by simp) _ h e

/-- What `add_free` checks at a seam past a node: the end of that node's area, and the start of the
next one. -/
def RefusedAt (P : Pool) (u v : List ℕ) (start size : ℕ) : Prop :=
  ∃ p ∈ u.getLast?, start < add32 (P.nodes p).start (P.nodes p).size
    ∨ ∃ c ∈ v.head?, (P.nodes c).start < add32 start size

theorem refusedAt_concat : P.RefusedAt (u ++ [p]) v start size
    ↔ start < add32 (P.nodes p).start (P.nodes p).size
      ∨ ∃ c ∈ v.head?, (P.nodes c).start < add32 start size := by
  unfold RefusedAt
  simp

/-- The loop of `add_free` stops at a seam of the list, where the area is refused by its checks or
linked. -/
theorem PoolList.addFree_eq (L : P.PoolList l) (hl : l ≠ []) (start : ℕ) : ∃ u v, l = u ++ v
    ∧ (∀ n ∈ u, (P.nodes n).start ≤ start) ∧ (∀ n ∈ v.head?, start < (P.nodes n).start)
    ∧ ∀ size node,
      (P.RefusedAt u v start size → P.addFree start size node = some (P, .unauthorizedAction))
      ∧ (¬ P.RefusedAt u v start size → P.addFree start size node
        = some (P.link start size node (v.headD 0) (saveAt u v), .noErr)) := by
  have hlist : P.list ≠ 0 := by
    obtain ⟨a, t, rfl⟩ := List.exists_cons_of_ne_nil hl
    rw [L.dll.head]
    exact L.ne_zero (by simp)
  obtain ⟨u, v, huv, hu, hv, hsearch⟩ := L.search_eq start
  refine ⟨u, v, huv, hu, hv, fun size node => ?_⟩
  have hcode : P.addFree start size node = some (
      if saveAt u v ≠ v.headD 0
          ∧ start < add32 (P.nodes (saveAt u v)).start (P.nodes (saveAt u v)).size then
        (P, .unauthorizedAction)
      else if saveAt u v ≠ v.headD 0 ∧ v.headD 0 ≠ 0
          ∧ (P.nodes (v.headD 0)).start < add32 start size then (P, .unauthorizedAction)
      else (P.link start size node (v.headD 0) (saveAt u v), .noErr)) := by
    rw [Pool.addFree, if_neg hlist, hsearch]
    rfl
  rw [hcode]
  rcases List.eq_nil_or_concat u with rfl | ⟨u, p, rfl⟩
  · -- nothing starts before it
    obtain ⟨c, v, rfl⟩ := List.exists_cons_of_ne_nil (show v ≠ [] by rintro rfl; exact hl huv)
    refine ⟨fun h => absurd h (by simp [RefusedAt]), fun _ => ?_⟩
    rw [saveAt_nil, if_neg (fun h => h.1 rfl), if_neg (fun h => h.1 rfl)]
  rw [List.concat_eq_append] at *
  have L' : P.PoolList (u ++ [p] ++ v) := huv ▸ L
  have hne := L'.ne_headD
  have hnext : p ≠ v.headD 0 ∧ v.headD 0 ≠ 0 ∧ (P.nodes (v.headD 0)).start < add32 start size
      ↔ ∃ c ∈ v.head?, (P.nodes c).start < add32 start size := by
    rcases v with _ | ⟨c, v⟩
    · simp
    · have hc0 : c ≠ 0 := L'.ne_zero (by simp)
      simp only [List.headD_cons, List.head?_cons, Option.mem_some_iff, exists_eq_left'] at hne ⊢
      exact ⟨fun h => h.2.2, fun h => ⟨hne, hc0, h⟩⟩
  rw [saveAt_concat, refusedAt_concat, ← hnext]
  constructor
  · intro h
    by_cases h1 : start < add32 (P.nodes p).start (P.nodes p).size
    · rw [if_pos ⟨hne, h1⟩]
    · rw [if_neg (fun h => h1 h.2), if_pos (h.resolve_left h1)]
  · intro h
    rw [if_neg (fun h1 => h (.inl h1.2)), if_neg (fun h2 => h (.inr h2))]

/-- Past a node of the list, the area is refused at the seam unless it fits. -/
theorem PoolList.addFree_seam (L : P.PoolList l) (hl : l ≠ []) (start : ℕ) : ∃ u v, l = u ++ v
    ∧ (∀ n ∈ u, (P.nodes n).start ≤ start) ∧ (∀ n ∈ v.head?, start < (P.nodes n).start)
    ∧ ∀ size node, (∀ p ∈ u.getLast?, (P.area p).stop < 2 ^ 32) →
      (v ≠ [] → start + size < 2 ^ 32) →
      (u = [] ∨ Fits (u.map P.area) ⟨start, size⟩ (v.map P.area) → P.addFree start size node
        = some (P.link start size node (v.headD 0) (saveAt u v), .noErr))
      ∧ (u ≠ [] → ¬ Fits (u.map P.area) ⟨start, size⟩ (v.map P.area) →
        P.addFree start size node = some (P, .unauthorizedAction)) := by
  obtain ⟨u, v, huv, hu, hv, hcode⟩ := L.addFree_eq hl start
  refine ⟨u, v, huv, hu, hv, fun size node hp hb => ?_⟩
  obtain ⟨hrefuse, hlink⟩ := hcode size node
  rcases List.eq_nil_or_concat u with rfl | ⟨u, p, rfl⟩
  · exact ⟨fun _ => hlink (by simp [RefusedAt]), fun h => absurd rfl h⟩
  rw [List.concat_eq_append] at *
  have hstop : add32 (P.nodes p).start (P.nodes p).size = (P.area p).stop :=
    add32_of_lt (hp p (by simp))
  rw [refusedAt_concat, hstop] at hrefuse hlink
  rw [fits_concat]
  refine ⟨fun h => hlink ?_, fun _ h => hrefuse ?_⟩
  · obtain ⟨hpfit, hcfit⟩ := h.resolve_left (by simp)
    rintro (hlt | ⟨c, hc, hlt⟩)
    · exact absurd hlt (Nat.not_lt.2 hpfit)
    · rw [add32_of_lt (hb (by rintro rfl; cases hc))] at hlt
      exact absurd hlt (Nat.not_lt.2 (hcfit c hc))
  · by_cases hpfit : start < (P.area p).stop
    · exact .inl hpfit
    obtain ⟨c, hc, hlt⟩ : ∃ c ∈ v.head?, ¬ start + size ≤ (P.nodes c).start := by
      by_contra hno
      push Not at hno
      exact h ⟨Nat.le_of_not_lt hpfit, hno⟩
    refine .inr ⟨c, hc, ?_⟩
    rw [add32_of_lt (hb (by rintro rfl; cases hc))]
    exact Nat.lt_of_not_le hlt

/-- An area that fits at the seam is added there, if no area it makes is as long as the address
space. The links back are right too unless it fills a gap that is not the last one. -/
theorem PoolList.linkSeam (L : P.PoolList (u ++ v)) (hne : u ++ v ≠ [])
    (hfit : Fits (u.map P.area) ⟨start, size⟩ (v.map P.area))
    (hp : ∀ p ∈ u.getLast?, (P.area p).stop < 2 ^ 32) (hb : v ≠ [] → start + size < 2 ^ 32)
    (hsize : ∀ a ∈ addArea (u.map P.area) ⟨start, size⟩ (v.map P.area), a.size < 2 ^ 32)
    (h0 : node ≠ 0) (hfresh : node ∉ P.alive) :
    ∃ Q l', Q.forward = (P.link start size node (v.headD 0) (saveAt u v)).forward
      ∧ ((∀ w p c x, u = w ++ [p] → v = c :: x → (P.area p).stop = start →
        start + size = (P.nodes c).start → x = []) →
        Q = P.link start size node (v.headD 0) (saveAt u v))
      ∧ Q.PoolList l' ∧ l'.map Q.area = addArea (u.map P.area) ⟨start, size⟩ (v.map P.area) := by
  rcases List.eq_nil_or_concat u with rfl | ⟨u, p, rfl⟩
  · obtain ⟨c, v, rfl⟩ := List.exists_cons_of_ne_nil hne
    have hsum : start + size = (P.nodes c).start → (P.nodes c).size + size < 2 ^ 32 := by
      intro hjoin
      have hjc : (⟨start, size⟩ : Area).stop = (P.area c).start := hjoin
      have := hsize (Area.join ⟨start, size⟩ (P.area c)) (by simp [addArea, joinNext, if_pos hjc])
      exact (Nat.add_comm _ _).trans_lt this
    obtain ⟨l', h1, h2⟩ := L.linkFirst h0 hfresh (hb (by simp)) hsum
    exact ⟨_, l', rfl, fun _ => rfl, h1, h2⟩
  rw [List.concat_eq_append] at *
  have hps : (P.area p).stop < 2 ^ 32 := hp p (by simp)
  rw [saveAt_concat]
  rcases v with _ | ⟨c, v⟩
  · rw [List.append_nil] at L
    have hsum : (P.area p).stop = start → (P.nodes p).size + size < 2 ^ 32 := fun hjoin =>
      hsize ((P.area p).join ⟨start, size⟩) (by simp [addArea, joinNext, hjoin])
    obtain ⟨l', h1, h2⟩ := L.linkLast h0 hfresh hps hsum
    exact ⟨_, l', rfl, fun _ => rfl, h1, h2⟩
  rw [List.append_assoc, List.singleton_append] at L
  by_cases hfill : (P.area p).stop = start ∧ start + size = (P.nodes c).start
  · have hjc : (⟨start, size⟩ : Area).stop = (P.area c).start := hfill.2
    have hjp : (P.area p).stop = (Area.join ⟨start, size⟩ (P.area c)).start := hfill.1
    obtain ⟨Q, h1, h2, l', h3, h4⟩ := L.linkFill node (hb (by simp)) hps hfill.1 hfill.2
      (hsize ((P.area p).join (Area.join ⟨start, size⟩ (P.area c))) (by
        simp [addArea, joinNext, if_pos hjc, if_pos hjp]))
    exact ⟨Q, l', h1, fun h => h2 (h u p c v rfl rfl hfill.1 hfill.2), h3, h4⟩
  · have hsp : (P.area p).stop = start → (P.nodes p).size + size < 2 ^ 32 := by
      intro hj
      have hjc : (⟨start, size⟩ : Area).stop ≠ (P.area c).start := fun h => hfill ⟨hj, h⟩
      exact hsize ((P.area p).join ⟨start, size⟩) (by simp [addArea, joinNext, if_neg hjc, hj])
    have hsc : start + size = (P.nodes c).start → (P.nodes c).size + size < 2 ^ 32 := by
      intro hj
      have hjc : (⟨start, size⟩ : Area).stop = (P.area c).start := hj
      have hjp : (P.area p).stop ≠ (Area.join ⟨start, size⟩ (P.area c)).start :=
        fun h => hfill ⟨h, hj⟩
      have := hsize (Area.join ⟨start, size⟩ (P.area c)) (by
        simp [addArea, joinNext, if_pos hjc, if_neg hjp])
      exact (Nat.add_comm _ _).trans_lt this
    obtain ⟨l', h1, h2⟩ := L.linkMid h0 hfresh (hb (by simp)) hps hsp hsc
      fun h1 h2 => hfill ⟨h1, h2⟩
    exact ⟨_, l', rfl, fun _ => rfl, h1, h2⟩

/-- `add_free`: refused if the area overlaps its neighbours at the seam it belongs to, else added.
-/
theorem PoolList.addFree (L : P.PoolList l) (hbd : P.Bounded l) (hb : start + size < 2 ^ 32)
    (h0 : node ≠ 0) (hfresh : node ∉ P.alive)
    (hfirst : ∀ c ∈ l.head?, (P.nodes c).start ≤ start ∨ start + size ≤ (P.nodes c).start)
    (hgap : ∀ u p c v, l = u ++ p :: c :: v → (P.area p).stop = start →
      start + size = (P.nodes c).start → v = []) :
    ∃ P' err u v, P.addFree start size node = some (P', err) ∧ l = u ++ v
      ∧ (∀ n ∈ u, (P.nodes n).start ≤ start) ∧ (∀ n ∈ v.head?, start < (P.nodes n).start)
      ∧ ((err ≠ .noErr ∧ P' = P ∧ ¬ Fits (u.map P.area) ⟨start, size⟩ (v.map P.area))
        ∨ (err = .noErr ∧ Fits (u.map P.area) ⟨start, size⟩ (v.map P.area) ∧ ∃ l', P'.PoolList l'
          ∧ l'.map P'.area = addArea (u.map P.area) ⟨start, size⟩ (v.map P.area))) := by
  by_cases hl : l = []
  · subst hl
    have hlist : P.list = 0 := L.dll.head
    exact ⟨_, _, [], [], by rw [Pool.addFree, if_pos hlist], rfl, by simp, by simp,
      .inr ⟨rfl, ⟨by simp, by simp⟩, [node], L.insertOnly start size h0 hfresh⟩⟩
  obtain ⟨u, v, rfl, hu, hv, hcode⟩ := L.addFree_seam hl start
  have hp : ∀ p ∈ u.getLast?, (P.area p).stop < 2 ^ 32 := fun p hp =>
    hbd p (List.mem_append_left _ (List.mem_of_getLast? hp))
  obtain ⟨hlink, hrefuse⟩ := hcode size node hp fun _ => hb
  by_cases hfit : Fits (u.map P.area) ⟨start, size⟩ (v.map P.area)
  · -- what is bounded stays so when it is joined
    have hstop : ∀ a ∈ addArea (u.map P.area) ⟨start, size⟩ (v.map P.area), a.stop < 2 ^ 32 := by
      refine forall_mem_addArea (fun a b h _ hb => ?_) (fun a ha => ?_) hb
      · rwa [Area.join_stop h]
      · rw [← List.map_append] at ha
        obtain ⟨n, hn, rfl⟩ := List.mem_map.1 ha
        exact hbd n hn
    obtain ⟨Q, l', -, hQ, h⟩ := L.linkSeam hl hfit hp (fun _ => hb)
      (fun a ha => (Nat.le_add_left _ _).trans_lt (hstop a ha)) h0 hfresh
    rw [hQ fun w p c x hw hx => hgap w p c x (by rw [hw, hx]; simp)] at h
    exact ⟨_, _, u, v, hlink (.inr hfit), rfl, hu, hv, .inr ⟨rfl, hfit, l', h⟩⟩
  · have hne : u ≠ [] := by
      rintro rfl
      refine hfit ⟨by simp, fun a ha => ?_⟩
      rw [List.head?_map] at ha
      obtain ⟨c, hc, rfl⟩ := Option.mem_map.1 ha
      have h1 := hfirst c hc
      have h2 := hv c hc
      simp only [Area.stop, area]
      omega
    exact ⟨_, _, u, v, hrefuse hne hfit, rfl, hu, hv, .inl ⟨by simp, rfl, hfit⟩⟩

/-- The only node that `add_free` may get is the one `kmalloc` returned. -/
theorem addFree_alive {err : PoolErr} {P' : Pool} (h : P.addFree start size node = some (P', err)) :
    ∀ x ∈ P'.alive, x = node ∨ x ∈ P.alive := by
  have hlink : ∀ cursor save, ∀ x ∈ (P.link start size node cursor save).alive,
      x = node ∨ x ∈ P.alive := by
    intro cursor save x hx
    unfold link at hx
    simp only [] at hx
    split_ifs at hx
    all_goals
      first
        | exact List.mem_cons.1 hx
        | exact .inr hx
        | exact .inr (List.mem_of_mem_erase hx)
  intro x hx
  unfold Pool.addFree at h
  split_ifs at h
  · cases h
    exact List.mem_cons.1 hx
  · obtain ⟨⟨cursor, save⟩, -, heq⟩ := Option.map_eq_some_iff.1 h
    simp only [] at heq
    split_ifs at heq
    · cases heq
      exact .inr hx
    · cases heq
      exact .inr hx
    · cases heq
      exact hlink cursor save x hx

/-! ## `get_block` -/

/-- `remove_free`, in each of its four shapes, unlinks the node. -/
theorem PoolList.removeFree (L : P.PoolList (u ++ n :: v)) : (P.removeFree n).PoolList (u ++ v)
    ∧ (u ++ v).map (P.removeFree n).area = u.map P.area ++ v.map P.area := by
  have hnext : (P.nodes n).next = v.headD 0 := L.next_of_split rfl
  have hprev : (P.nodes n).prev = lastD u := L.prev_of_split rfl
  have hlist : P.list = (u ++ n :: v).headD 0 := L.dll.head
  have hne : ∀ x ∈ u ++ v, x ∈ u ++ n :: v := by
    intro x hx
    simp only [List.mem_append, List.mem_cons] at hx ⊢
    tauto
  -- where the list is not empty before `n`, its head stays
  have hhead : lastD u ≠ 0 → P.list = (u ++ v).headD 0 := by
    intro h
    rw [hlist]
    rcases u with _ | ⟨b, u⟩
    · exact absurd rfl h
    · rfl
  have hfirst : lastD u = 0 → u = [] := by
    intro h
    rcases List.eq_nil_or_concat u with rfl | ⟨u, b, rfl⟩
    · rfl
    · rw [List.concat_eq_append, lastD_concat] at h
      exact absurd h (L.ne_zero (by simp))
  have hlast : v.headD 0 = 0 → v = [] := by
    intro h
    rcases v with _ | ⟨b, v⟩
    · rfl
    · exact absurd h (L.ne_zero (by simp))
  have hnd := L.dll.nodup
  unfold Pool.removeFree
  simp only [hnext, hprev]
  split_ifs with h1 h2 h2
  · obtain rfl := hlast h1
    obtain rfl := hfirst h2
    exact L.eraseNode _ (by simp) (by simp) (by simp) (by simp) (by simp) rfl rfl
  · obtain rfl := hlast h1
    refine L.eraseNode ((P.setNext (lastD u) 0).kfree n) (fun _ => ?_) (by simp) (fun x _ hx => ?_)
      (fun x _ _ => ?_) (fun x _ => setNext_area x _ _) rfl (hhead h2)
    · show ((P.setNext (lastD u) 0).nodes (lastD u)).next = 0
      simp [setNext]
    · show ((P.setNext (lastD u) 0).nodes x).next = _
      simp [setNext, setNode_of_ne hx]
    · show ((P.setNext (lastD u) 0).nodes x).prev = _
      by_cases hx : x = lastD u
      · subst hx
        simp [setNext]
      · simp [setNext, setNode_of_ne hx]
  · obtain rfl := hfirst h2
    refine L.eraseNode _ (by simp) (fun _ => ?_) (fun x _ _ => ?_) (fun x _ hx => ?_)
      (fun x _ => setPrev_area x _ _) rfl rfl
    · show ((P.setPrev (v.headD 0) 0).nodes (v.headD 0)).prev = 0
      rw [setPrev, setNode_self]
    · show ((P.setPrev (v.headD 0) 0).nodes x).next = _
      by_cases hx : x = v.headD 0
      · rw [hx, setPrev, setNode_self]
      · rw [setPrev, setNode_of_ne hx]
    · show ((P.setPrev (v.headD 0) 0).nodes x).prev = _
      rw [setPrev, setNode_of_ne hx]
  · have huv : lastD u ≠ v.headD 0 := by
      intro e
      refine (List.nodup_append.1 hnd).2.2 _ ((lastD_mem u).resolve_left h2) _
        (List.mem_cons_of_mem _ ((headD_mem v).resolve_left h1)) e
    refine L.eraseNode (((P.setPrev (v.headD 0) (lastD u)).setNext (lastD u) (v.headD 0)).kfree n)
      (fun _ => ?_) (fun _ => ?_) (fun x _ hx => ?_) (fun x _ hx => ?_)
      (fun x _ => (setNext_area x _ _).trans (setPrev_area x _ _)) rfl (hhead h2)
    · show (((P.setPrev (v.headD 0) (lastD u)).setNext (lastD u) (v.headD 0)).nodes (lastD u)).next
        = _
      simp only [setNext, setNode_self]
    · show (((P.setPrev (v.headD 0) (lastD u)).setNext (lastD u) (v.headD 0)).nodes
        (v.headD 0)).prev = _
      simp only [setNext, setPrev, setNode_self, setNode_of_ne huv.symm]
    · show (((P.setPrev (v.headD 0) (lastD u)).setNext (lastD u) (v.headD 0)).nodes x).next = _
      by_cases hxv : x = v.headD 0
      · rw [setNext, setNode_of_ne hx, hxv, setPrev, setNode_self]
      · rw [setNext, setNode_of_ne hx, setPrev, setNode_of_ne hxv]
    · show (((P.setPrev (v.headD 0) (lastD u)).setNext (lastD u) (v.headD 0)).nodes x).prev = _
      by_cases hxu : x = lastD u
      · rw [hxu, setNext, setNode_self, setPrev, setNode_of_ne huv]
      · rw [setNext, setNode_of_ne hxu, setPrev, setNode_of_ne hx]

/-- `get_block` takes `need` bytes from the front of the node it selected. -/
theorem PoolList.takeBlock (L : P.PoolList (u ++ n :: v)) (hbd : P.Words (u ++ n :: v)) {need : ℕ}
    (hneed : need ≤ (P.nodes n).size) : ∃ l', (P.takeBlock n need).PoolList l'
      ∧ l'.map (P.takeBlock n need).area = takeArea (u.map P.area) (P.area n) (v.map P.area) need := by
  obtain ⟨hsize, hstop⟩ := hbd n (by simp)
  have hsub : sub32 (P.nodes n).size need = (P.nodes n).size - need := sub32_of_le hneed hsize
  set P₁ := P.setNode n ⟨add32 (P.nodes n).start need, (P.nodes n).size - need, P.nextOf n,
    P.prevOf n⟩ with hP₁
  have heq : P.takeBlock n need
      = if (P.nodes n).size - need = 0 then P₁.removeFree n else P₁ := by
    have h1 : (P.setSize n (sub32 (P.nodes n).size need)).setStart n
        (add32 ((P.setSize n (sub32 (P.nodes n).size need)).nodes n).start need) = P₁ := by
      unfold setStart setSize
      rw [setNode_self, hsub]
      simp only [hP₁, setNode, Function.update_idem]
      rfl
    unfold Pool.takeBlock
    simp only [h1]
    rw [hP₁, setNode_self]
  obtain ⟨h1, h2⟩ := L.resize ⟨add32 (P.nodes n).start need, (P.nodes n).size - need⟩
  rw [heq]
  unfold takeArea
  have hsz : (P.area n).size = (P.nodes n).size := rfl
  by_cases hz : (P.nodes n).size = need
  · rw [if_pos (show (P.nodes n).size - need = 0 by omega), if_pos (hsz.trans hz)]
    have h1' : P₁.PoolList (u ++ n :: v) := h1
    obtain ⟨k1, k2⟩ := h1'.removeFree
    refine ⟨u ++ v, k1, k2.trans ?_⟩
    have h2' : u.map P₁.area ++ P₁.area n :: v.map P₁.area = _ :=
      (by simp : _ = (u ++ n :: v).map P₁.area).trans h2
    obtain ⟨e1, e2⟩ := List.append_inj h2' (by simp)
    rw [e1, (List.cons.inj e2).2]
  · rw [if_neg (show (P.nodes n).size - need ≠ 0 by omega), if_neg (fun h => hz (hsz.symm.trans h))]
    -- what is left of the area starts at an address
    have hadd : add32 (P.nodes n).start need = (P.nodes n).start + need := by
      refine add32_of_lt ?_
      simp only [Area.stop, area] at hstop
      omega
    refine ⟨_, h1, h2.trans ?_⟩
    rw [hadd]
    rfl

/-- The first area large enough, when those of `u` are smaller. -/
theorem find?_area {need : ℕ} (hn : need ≤ (P.nodes n).size)
    (hu : ∀ m ∈ u, (P.nodes m).size < need) :
    ((u ++ n :: v).map P.area).find? (fun a => need ≤ a.size) = some (P.area n) := by
  rw [List.map_append, List.map_cons, List.find?_append, List.find?_eq_none.2, Option.none_or,
    List.find?_cons_of_pos]
  · exact decide_eq_true hn
  · intro a ha
    obtain ⟨m, hm, rfl⟩ := List.mem_map.1 ha
    exact fun hd => absurd (hu m hm) (Nat.not_lt.2 (of_decide_eq_true hd))

/-- `get_block`: nothing found and nothing changed, or the front of the first area that is large
enough. -/
theorem PoolList.getBlock_first (L : P.PoolList l) (hbd : P.Words l) {count need : ℕ}
    (hneed : mul32 kernelPageSize count = need) :
    (P.getBlock count = some (P, 0, .noMoreFreeMem) ∧ ∀ m ∈ l, (P.nodes m).size < need)
      ∨ ∃ u n v l' P', P.getBlock count = some (P', (P.nodes n).start, .noErr) ∧ l = u ++ n :: v
        ∧ need ≤ (P.nodes n).size ∧ (∀ m ∈ u, (P.nodes m).size < need) ∧ P'.PoolList l'
        ∧ l'.map P'.area = takeArea (u.map P.area) (P.area n) (v.map P.area) need := by
  unfold Pool.getBlock
  simp only [hneed]
  rcases L.find_eq need with ⟨h, hall⟩ | ⟨u, n, v, rfl, h, hsize, hsmall⟩
  · rw [h]
    exact .inl ⟨rfl, hall⟩
  · rw [h]
    obtain ⟨l', h1, h2⟩ := L.takeBlock hbd hsize
    refine .inr ⟨u, n, v, l', _, ?_, rfl, hsize, hsmall, h1, h2⟩
    rw [Option.map_some, if_neg (L.ne_zero (by simp))]

theorem PoolList.getBlock (L : P.PoolList l) (hbd : P.Words l) {count : ℕ}
    (hcount : count * kernelPageSize < 2 ^ 32) :
    (P.getBlock count = some (P, 0, .noMoreFreeMem)
        ∧ ∀ m ∈ l, (P.nodes m).size < count * kernelPageSize)
      ∨ ∃ u n v l' P', P.getBlock count = some (P', (P.nodes n).start, .noErr) ∧ l = u ++ n :: v
        ∧ count * kernelPageSize ≤ (P.nodes n).size ∧ P'.PoolList l'
        ∧ l'.map P'.area = takeArea (u.map P.area) (P.area n) (v.map P.area)
          (count * kernelPageSize) := by
  have hmul : mul32 kernelPageSize count = count * kernelPageSize := by
    rw [mul32_of_lt (by rwa [Nat.mul_comm] at hcount), Nat.mul_comm]
  rcases L.getBlock_first hbd hmul with h | ⟨u, n, v, l', P', h1, h2, h3, -, h4⟩
  · exact .inl h
  · exact .inr ⟨u, n, v, l', P', h1, h2, h3, h4⟩

end Pool

end RTLKIM

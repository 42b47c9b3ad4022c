import RTLKIM.MemAlloc
import RTLKIM.Lib.Scan

/-!
# The pool's list and its areas

`PoolList P l` says the pool's list goes through the nodes `l`, alive and doubly linked. The loops
of `add_free` and `get_block` are walks of `scan`, which split `l` at the node they stop at
(`search_eq`, `find_eq`), and each shape of `add_free` and `remove_free` is an edit of `l` that does
to the areas what `addArea` and `takeArea` do.
-/

namespace RTLKIM

namespace Pool

variable {P : Pool} {l u v : List ℕ} {n m : ℕ}

def nextOf (P : Pool) (n : ℕ) : ℕ := (P.nodes n).next

def prevOf (P : Pool) (n : ℕ) : ℕ := (P.nodes n).prev

/-- The list goes through the nodes `l`. -/
structure PoolList (P : Pool) (l : List ℕ) : Prop where
  dll : Dll P.nextOf P.prevOf P.list l
  alive : ∀ n ∈ l, n ∈ P.alive

/-! ## Fields -/

section Fields

variable {a : MemArea} {w : ℕ}

@[simp] theorem setNode_self : (P.setNode n a).nodes n = a := Function.update_self _ _ _

theorem setNode_of_ne (h : m ≠ n) : (P.setNode n a).nodes m = P.nodes m :=
  Function.update_of_ne h _ _

@[simp] theorem setNode_alive : (P.setNode n a).alive = P.alive := rfl

@[simp] theorem setNode_list : (P.setNode n a).list = P.list := rfl

@[simp] theorem newNode_nodes : (P.newNode n a).nodes = (P.setNode n a).nodes := rfl

@[simp] theorem newNode_alive : (P.newNode n a).alive = n :: P.alive := rfl

@[simp] theorem newNode_list : (P.newNode n a).list = P.list := rfl

end Fields

/-! ## The loops -/

theorem search_eq_scan (P : Pool) (start : ℕ) : ∀ fuel cursor save : ℕ,
    P.search start fuel cursor save
      = scan P.nextOf (fun n => start < (P.nodes n).start) fuel cursor save
  | 0, _, _ => rfl
  | fuel + 1, cursor, save => by
    rw [search, scan]
    split_ifs with h0 h1 h2 h2
    · rfl
    · tauto
    · rfl
    · tauto
    · tauto
    · exact search_eq_scan P start fuel _ cursor

theorem find_eq_scan (P : Pool) (need : ℕ) : ∀ fuel cursor save : ℕ, P.find need fuel cursor
      = (scan P.nextOf (fun n => need ≤ (P.nodes n).size) fuel cursor save).map Prod.fst
  | 0, _, _ => rfl
  | fuel + 1, cursor, save => by
    rw [find, scan]
    split_ifs with h0 h1 h2 h2
    · rw [h0]
      rfl
    · tauto
    · rfl
    · tauto
    · tauto
    · exact find_eq_scan P need fuel _ cursor

namespace PoolList

variable (L : P.PoolList l)

include L

theorem length_le : l.length ≤ P.alive.length :=
  L.dll.nodup.length_le_of_subset L.alive

theorem next_of_split (h : l = u ++ n :: v) : (P.nodes n).next = v.headD 0 := by
  have := L.dll
  rw [h] at this
  exact this.links_of_split.1

theorem prev_of_split (h : l = u ++ n :: v) : (P.nodes n).prev = lastD u := by
  have := L.dll
  rw [h] at this
  exact this.links_of_split.2

theorem ne_zero (hn : n ∈ l) : n ≠ 0 := by
  rintro rfl
  exact L.dll.ne_zero hn

theorem sll : Sll P.nextOf P.list l := ⟨P.prevOf, L.dll⟩

/-- The nodes that start no later than `start`, and the others. -/
theorem search_eq (start : ℕ) : ∃ u v, l = u ++ v
    ∧ (∀ n ∈ u, (P.nodes n).start ≤ start) ∧ (∀ n ∈ v.head?, start < (P.nodes n).start)
    ∧ P.search start (P.alive.length + 1) P.list P.list
      = some (v.headD 0, if u = [] then v.headD 0 else lastD u) := by
  obtain ⟨u, v, hl, hu, hv, hs⟩ := L.sll.scan_eq (fun n => start < (P.nodes n).start)
    (Nat.lt_succ_of_le L.length_le)
  refine ⟨u, v, hl, fun n hn => Nat.le_of_not_lt (hu n hn), hv, ?_⟩
  rw [search_eq_scan, hs]
  rcases u with _ | ⟨a, u⟩
  · have hlist : P.list = l.headD 0 := L.dll.head
    rw [if_pos rfl, if_pos rfl, hlist, hl]
    rfl
  · rw [if_neg (List.cons_ne_nil a u), if_neg (List.cons_ne_nil a u)]

/-- The first node of at least `need` bytes, if there is one. -/
theorem find_eq (need : ℕ) :
    (P.find need (P.alive.length + 1) P.list = some 0 ∧ ∀ m ∈ l, (P.nodes m).size < need)
    ∨ ∃ u n v, l = u ++ n :: v ∧ P.find need (P.alive.length + 1) P.list = some n
      ∧ need ≤ (P.nodes n).size ∧ ∀ m ∈ u, (P.nodes m).size < need := by
  obtain ⟨u, v, rfl, hu, hv, hs⟩ := L.sll.scan_eq (fun n => need ≤ (P.nodes n).size)
    (Nat.lt_succ_of_le L.length_le)
  rw [find_eq_scan P need _ _ P.list, hs]
  rcases v with _ | ⟨n, v⟩
  · rw [List.append_nil]
    exact .inl ⟨rfl, fun m hm => Nat.lt_of_not_le (hu m hm)⟩
  · exact .inr ⟨u, n, v, rfl, rfl, hv n rfl, fun m hm => Nat.lt_of_not_le (hu m hm)⟩

/-- The walk meets the nodes of the list. -/
theorem walk_split : ∀ (fuel : ℕ) (u v : List ℕ), l = u ++ v → v.length ≤ fuel →
    P.walk fuel (v.headD 0) = v
  | 0, u, v, _, hf => by
    have : v = [] := List.length_eq_zero_iff.1 (by omega)
    simp [Pool.walk, this]
  | fuel + 1, u, [], _, _ => by simp [Pool.walk]
  | fuel + 1, u, a :: v, h, hf => by
    have ha : a ≠ 0 := L.ne_zero (by rw [h]; simp)
    rw [Pool.walk, List.headD_cons, if_neg ha, L.next_of_split h,
      walk_split fuel (u ++ [a]) v (by simp [h]) (by simpa using hf)]

theorem areaList_eq : P.areaList = l := by
  have h := L.walk_split P.alive.length [] l rfl L.length_le
  rwa [← L.dll.head] at h

end PoolList

/-! ## Edits -/

/-- A node's area changed, its links kept. -/
theorem PoolList.resize (L : P.PoolList (u ++ n :: v)) (a : Area) :
    (P.setNode n ⟨a.start, a.size, P.nextOf n, P.prevOf n⟩).PoolList (u ++ n :: v)
      ∧ (u ++ n :: v).map (P.setNode n ⟨a.start, a.size, P.nextOf n, P.prevOf n⟩).area
        = u.map P.area ++ a :: v.map P.area := by
  set P' := P.setNode n ⟨a.start, a.size, P.nextOf n, P.prevOf n⟩ with hP'
  have hnd := L.dll.nodup
  rw [List.perm_middle.nodup_iff, List.nodup_cons] at hnd
  have hnodes : ∀ x, x ≠ n → P'.nodes x = P.nodes x := fun x hx => setNode_of_ne hx
  have hself : P'.nodes n = ⟨a.start, a.size, P.nextOf n, P.prevOf n⟩ := setNode_self
  have hmap : ∀ k : List ℕ, n ∉ k → k.map P'.area = k.map P.area := by
    intro k hk
    refine List.map_congr_left fun x hx => ?_
    unfold area
    rw [hnodes x (fun e => hk (e ▸ hx))]
  refine ⟨⟨L.dll.congr (fun x _ => ?_) (fun x _ => ?_), L.alive⟩, ?_⟩
  · by_cases hx : x = n
    · subst hx
      show (P'.nodes x).next = _
      rw [hself]
    · show (P'.nodes x).next = _
      rw [hnodes x hx]
      rfl
  · by_cases hx : x = n
    · subst hx
      show (P'.nodes x).prev = _
      rw [hself]
    · show (P'.nodes x).prev = _
      rw [hnodes x hx]
      rfl
  · rw [List.map_append, List.map_cons, hmap u (fun h => hnd.1 (List.mem_append_left _ h)),
      hmap v (fun h => hnd.1 (List.mem_append_right _ h))]
    unfold area
    rw [hself]

/-- A fresh node linked in at a seam. -/
theorem PoolList.insertNode (L : P.PoolList (u ++ v)) {P' : Pool} {node : ℕ} {a : Area}
    (h0 : node ≠ 0) (hfresh : node ∉ P.alive)
    (hnode : P'.nodes node = ⟨a.start, a.size, v.headD 0, lastD u⟩)
    (hu : lastD u ≠ 0 → (P'.nodes (lastD u)).next = node)
    (hv : v.headD 0 ≠ 0 → (P'.nodes (v.headD 0)).prev = node)
    (hnx : ∀ x ∈ u ++ v, x ≠ lastD u → (P'.nodes x).next = (P.nodes x).next)
    (hpv : ∀ x ∈ u ++ v, x ≠ v.headD 0 → (P'.nodes x).prev = (P.nodes x).prev)
    (harea : ∀ x ∈ u ++ v, P'.area x = P.area x) (halive : P'.alive = node :: P.alive)
    (hlist : P'.list = (u ++ node :: v).headD 0) :
    P'.PoolList (u ++ node :: v)
      ∧ (u ++ node :: v).map P'.area = u.map P.area ++ a :: v.map P.area := by
  have hn : node ∉ u ++ v := fun h => hfresh (L.alive _ h)
  refine ⟨⟨?_, fun x hx => ?_⟩, ?_⟩
  · rw [hlist]
    refine L.dll.insert h0 hn ?_ ?_ hu hv hnx hpv
    · show (P'.nodes node).next = _
      rw [hnode]
    · show (P'.nodes node).prev = _
      rw [hnode]
  · rw [halive, List.mem_cons]
    simp only [List.mem_append, List.mem_cons] at hx
    rcases hx with hx | hx | hx
    · exact .inr (L.alive x (by simp [hx]))
    · exact .inl hx
    · exact .inr (L.alive x (by simp [hx]))
  · have hself : P'.area node = a := by
      unfold area
      rw [hnode]
    rw [List.map_append, List.map_cons, hself,
      List.map_congr_left (l := u) fun x hx => harea x (by simp [hx]),
      List.map_congr_left (l := v) fun x hx => harea x (by simp [hx])]

/-- A node unlinked and given back. -/
theorem PoolList.eraseNode (L : P.PoolList (u ++ n :: v)) (P' : Pool)
    (hu : lastD u ≠ 0 → (P'.nodes (lastD u)).next = v.headD 0)
    (hv : v.headD 0 ≠ 0 → (P'.nodes (v.headD 0)).prev = lastD u)
    (hnx : ∀ x ∈ u ++ v, x ≠ lastD u → (P'.nodes x).next = (P.nodes x).next)
    (hpv : ∀ x ∈ u ++ v, x ≠ v.headD 0 → (P'.nodes x).prev = (P.nodes x).prev)
    (harea : ∀ x ∈ u ++ v, P'.area x = P.area x) (halive : P'.alive = P.alive.erase n)
    (hlist : P'.list = (u ++ v).headD 0) :
    P'.PoolList (u ++ v) ∧ (u ++ v).map P'.area = u.map P.area ++ v.map P.area := by
  have hnd := L.dll.nodup
  rw [List.perm_middle.nodup_iff, List.nodup_cons] at hnd
  refine ⟨⟨?_, fun x hx => ?_⟩, ?_⟩
  · rw [hlist]
    exact L.dll.erase hu hv hnx hpv
  · have hxn : x ≠ n := fun e => hnd.1 (e ▸ hx)
    rw [halive, List.mem_erase_of_ne hxn]
    refine L.alive x ?_
    simp only [List.mem_append, List.mem_cons] at hx ⊢
    tauto
  · rw [List.map_congr_left harea, List.map_append]

end Pool

end RTLKIM

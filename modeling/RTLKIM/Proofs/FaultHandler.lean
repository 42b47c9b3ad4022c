import RTLKIM.FaultHandler
import RTLKIM.Lib.Scan

/-!
# The handlers' ranges stay in order

The registration finds the two ranges that the new one comes between and compares it with those
alone. The ranges of the list are in order, so that is enough: the new range is linked when it is
clear of every range, and freed otherwise (`register_spec`). The search of the page fault handler
then meets the one range that has the address (`fault_spec`).
-/

namespace RTLKIM

namespace Handlers

variable {H H' : Handlers} {l u v : List ℕ} {r : Register} {start stop node a : ℕ}

def startOf (H : Handlers) (n : ℕ) : ℕ := (H.nodes n).start

def stopOf (H : Handlers) (n : ℕ) : ℕ := (H.nodes n).stop

/-- The nodes of the list, their ranges in order. -/
structure Ordered (H : Handlers) (l : List ℕ) : Prop where
  listed : H.Listed l
  order : InOrder H.startOf H.stopOf l

/-! ## The loops -/

theorem search_eq_scan (H : Handlers) (start : ℕ) : ∀ fuel cursor pre : ℕ,
    H.search start fuel cursor pre
      = scan H.nextOf (fun n => start < (H.nodes n).start) fuel cursor pre
  | 0, _, _ => rfl
  | fuel + 1, cursor, pre => by
    rw [search, scan]
    by_cases h : cursor ≠ 0 ∧ (H.nodes cursor).start ≤ start
    · rw [if_pos h, if_neg (by omega), search_eq_scan H start fuel]
      rfl
    · rw [if_neg h, if_pos (by omega)]

theorem find_eq_scan (H : Handlers) (a : ℕ) : ∀ fuel cursor pre : ℕ, H.find a fuel cursor
      = (scan H.nextOf (fun n => (H.nodes n).start ≤ a ∧ a < (H.nodes n).stop) fuel cursor pre).map
          Prod.fst
  | 0, _, _ => rfl
  | fuel + 1, cursor, pre => by
    rw [find, scan]
    split_ifs with h0 h1 h2 h2
    · rw [h0]
      rfl
    · tauto
    · rfl
    · tauto
    · tauto
    · exact find_eq_scan H a fuel _ cursor

theorem Listed.length_le (h : H.Listed l) : l.length ≤ H.alive.length :=
  h.sll.nodup.length_le_of_subset h.alive

/-! ## The new range -/

/-- A node that is not in the list changes nothing of it. -/
theorem Listed.newNode (h : H.Listed l) (m : MemHandler) (hn : node ∉ H.alive) :
    (H.newNode node m).Listed l ∧ ∀ n ∈ l, (H.newNode node m).nodes n = H.nodes n := by
  have hkeep : ∀ n ∈ H.alive, (H.newNode node m).nodes n = H.nodes n := by
    intro n hn'
    refine Function.update_of_ne ?_ _ _
    rintro rfl
    exact hn hn'
  have hl : ∀ n ∈ l, (H.newNode node m).nodes n = H.nodes n := fun n hn' => hkeep n (h.alive n hn')
  refine ⟨⟨h.sll.congr fun n hn' => congrArg MemHandler.next (hl n hn'),
    fun n hn' => List.mem_cons_of_mem _ (h.alive n hn'), fun n hn' => ?_⟩, hl⟩
  rw [hl n hn']
  exact h.nonempty n hn'

/-- A node that is freed again leaves everything as it was. -/
theorem same_of_kfree (H : Handlers) (m : MemHandler) (hn : node ∉ H.alive) :
    H.Same ((H.newNode node m).kfree node) := by
  refine ⟨rfl, List.erase_cons_head node H.alive, fun n hn' => Function.update_of_ne ?_ _ _⟩
  rintro rfl
  exact hn hn'

/-- The new node linked between `u` and `v`. -/
structure Spliced (H : Handlers) (r : Register) (u v : List ℕ) (H' : Handlers) : Prop where
  head : H'.handlerList = (u ++ r.node :: v).headD 0
  alive : H'.alive = r.node :: H.alive
  node : H'.nodes r.node = ⟨r.start, r.stop, r.handler, v.headD 0⟩
  last : lastD u ≠ 0 → H'.nodes (lastD u) = { H.nodes (lastD u) with next := r.node }
  others : ∀ n ∈ u ++ v, n ≠ lastD u → H'.nodes n = H.nodes n

/-- The ranges of the other nodes are as they were. -/
theorem Spliced.kept (S : H.Spliced r u v H') (h : H.Listed (u ++ v)) : ∀ n ∈ u ++ v,
    (H'.nodes n).start = (H.nodes n).start ∧ (H'.nodes n).stop = (H.nodes n).stop
      ∧ (H'.nodes n).handler = (H.nodes n).handler := by
  intro n hn
  by_cases hl : n = lastD u
  · subst hl
    rw [S.last (h.sll.ne_zero hn)]
    exact ⟨rfl, rfl, rfl⟩
  · rw [S.others n hn hl]
    exact ⟨rfl, rfl, rfl⟩

theorem Spliced.added (S : H.Spliced r u v H') (h : H.Ordered (u ++ v)) (hf : H.FreshNode r.node)
    (hr : r.start < r.stop) (h1 : ∀ n ∈ u.getLast?, H.stopOf n ≤ r.start)
    (h2 : ∀ n ∈ v.head?, r.stop ≤ H.startOf n) :
    H.Added (u ++ v) r H' (u ++ r.node :: v) ∧ H'.Ordered (u ++ r.node :: v) := by
  have hmem : r.node ∉ u ++ v := fun hn => hf.2 (h.listed.alive _ hn)
  have hkept := S.kept h.listed
  have hpos : (H'.nodes r.node).start < (H'.nodes r.node).stop := by rw [S.node]; exact hr
  have hsll : Sll H'.nextOf H'.handlerList (u ++ r.node :: v) := by
    rw [S.head]
    refine h.listed.sll.insert hf.1 hmem (congrArg MemHandler.next S.node) (fun h0 => ?_)
      fun n hn hne => congrArg MemHandler.next (S.others n hn hne)
    exact congrArg MemHandler.next (S.last h0)
  have hlisted : H'.Listed (u ++ r.node :: v) := by
    refine ⟨hsll, fun n hn => ?_, fun n hn => ?_⟩
    · rw [S.alive]
      rcases List.mem_cons.1 (List.perm_middle.subset hn) with rfl | hn
      · exact List.mem_cons_self
      · exact List.mem_cons_of_mem _ (h.listed.alive n hn)
    · rcases List.mem_cons.1 (List.perm_middle.subset hn) with rfl | hn
      · exact hpos
      · rw [(hkept n hn).1, (hkept n hn).2.1]
        exact h.listed.nonempty n hn
  have horder : InOrder H'.startOf H'.stopOf (u ++ v) :=
    h.order.congr (fun n hn => (hkept n hn).1) fun n hn => (hkept n hn).2.1
  refine ⟨⟨hlisted, List.perm_middle, S.alive, ?_, hkept⟩,
    hlisted, horder.insert hpos (fun n hn => ?_) fun n hn => ?_⟩
  · rw [S.node]
    exact ⟨rfl, rfl, rfl⟩
  · have hnu : n ∈ u ++ v := List.mem_append_left _ (List.mem_of_mem_getLast? hn)
    rw [stopOf, (hkept n hnu).2.1, startOf, S.node]
    exact h1 n hn
  · have hnv : n ∈ u ++ v := List.mem_append_right _ (List.mem_of_mem_head? hn)
    rw [startOf, (hkept n hnv).1, stopOf, S.node]
    exact h2 n hn

/-- The registration with its new node. -/
def withNode (H : Handlers) (r : Register) : Handlers :=
  H.newNode r.node ⟨r.start, r.stop, r.handler, 0⟩

theorem withNode_self (H : Handlers) (r : Register) :
    (H.withNode r).nodes r.node = ⟨r.start, r.stop, r.handler, 0⟩ := Function.update_self ..

theorem setNext_self (H : Handlers) (n w : ℕ) :
    (H.setNext n w).nodes n = { H.nodes n with next := w } := Function.update_self ..

theorem setNext_of_ne (H : Handlers) {n m : ℕ} (w : ℕ) (h : m ≠ n) :
    (H.setNext n w).nodes m = H.nodes m := Function.update_of_ne h ..

/-- What the new range has to be clear of: the ranges it comes between. -/
def ClearOf (H : Handlers) (r : Register) (u v : List ℕ) : Prop :=
  (∀ n ∈ u.getLast?, H.stopOf n ≤ r.start) ∧ ∀ n ∈ v.head?, r.stop ≤ H.startOf n

/-- The registration either links the new range between `u` and `v` or frees it. -/
structure LinksOrFrees (H : Handlers) (r : Register) (u v : List ℕ) (x : Handlers × RegisterErr) :
    Prop where
  links : H.ClearOf r u v → x.2 = .noErr ∧ H.Spliced r u v x.1
  frees : ¬ H.ClearOf r u v → x = ((H.withNode r).kfree r.node, .handlerAlreadyExists)

theorem Listed.ne_fresh (h : H.Listed l) (hf : H.FreshNode r.node) : ∀ n ∈ l, n ≠ r.node := by
  rintro n hn rfl
  exact hf.2 (h.alive _ hn)

/-- What comes after a node leaves the head as it was. -/
theorem Listed.head_concat {w v' : List ℕ} {b : ℕ} (h : H.Listed ((w ++ [b]) ++ v)) :
    H.handlerList = ((w ++ [b]) ++ v').headD 0 := by
  rw [h.sll.head]
  rcases w with _ | ⟨c, w⟩
  · rfl
  · rfl

/-- Before the first range. -/
theorem link_head {c : ℕ} (h : H.Listed (c :: v)) (hf : H.FreshNode r.node) :
    H.LinksOrFrees r [] (c :: v)
      ((H.withNode r).link r.start r.stop r.node c (H.withNode r).handlerList) := by
  obtain ⟨-, hkeep⟩ := h.newNode ⟨r.start, r.stop, r.handler, 0⟩ hf.2
  have hc : (H.withNode r).nodes c = H.nodes c := hkeep c (by simp)
  have hc0 : c ≠ 0 := h.sll.ne_zero (by simp)
  have hhead : c = (H.withNode r).handlerList := h.sll.head.symm
  have hclear : H.ClearOf r [] (c :: v) ↔ ¬ (H.nodes c).start < r.stop := by
    simp [ClearOf, startOf]
  rw [link, if_pos hc0, if_pos hhead, hc]
  refine ⟨fun hcl => ?_, fun hcl => if_pos (not_not.1 (hclear.not.1 hcl))⟩
  rw [if_neg (hclear.1 hcl)]
  refine ⟨rfl, rfl, rfl, ?_, by simp, fun n hn _ => ?_⟩
  · change ((H.withNode r).setNext r.node c).nodes r.node = _
    rw [setNext_self, withNode_self]
    rfl
  · exact (setNext_of_ne _ _ (h.ne_fresh hf n hn)).trans (hkeep n hn)

/-- After the last range. -/
theorem link_last {w : List ℕ} {b : ℕ} (h : H.Listed (w ++ [b])) (hf : H.FreshNode r.node) :
    H.LinksOrFrees r (w ++ [b]) [] ((H.withNode r).link r.start r.stop r.node 0 b) := by
  obtain ⟨-, hkeep⟩ := h.newNode ⟨r.start, r.stop, r.handler, 0⟩ hf.2
  have hb : (H.withNode r).nodes b = H.nodes b := hkeep b (by simp)
  have hne := h.ne_fresh hf
  have hclear : H.ClearOf r (w ++ [b]) [] ↔ ¬ r.start < (H.nodes b).stop := by
    simp [ClearOf, stopOf]
  rw [link, if_neg (by simp), hb]
  refine ⟨fun hcl => ?_, fun hcl => if_pos (not_not.1 (hclear.not.1 hcl))⟩
  rw [if_neg (hclear.1 hcl)]
  rw [← List.append_nil (w ++ [b])] at h
  refine ⟨rfl, h.head_concat, rfl, ?_, fun _ => ?_, fun n hn hnl => ?_⟩
  · rw [setNext_of_ne _ _ (hne b (by simp)).symm, withNode_self]
    rfl
  · rw [lastD_concat, setNext_self, hb]
  · rw [List.append_nil] at hn
    rw [lastD_concat] at hnl
    rw [setNext_of_ne _ _ hnl]
    exact hkeep n hn

/-- Between two ranges. -/
theorem link_middle {w : List ℕ} {b c : ℕ} (h : H.Listed ((w ++ [b]) ++ c :: v))
    (hf : H.FreshNode r.node) :
    H.LinksOrFrees r (w ++ [b]) (c :: v) ((H.withNode r).link r.start r.stop r.node c b) := by
  obtain ⟨-, hkeep⟩ := h.newNode ⟨r.start, r.stop, r.handler, 0⟩ hf.2
  have hb : (H.withNode r).nodes b = H.nodes b := hkeep b (by simp)
  have hc : (H.withNode r).nodes c = H.nodes c := hkeep c (by simp)
  have hc0 : c ≠ 0 := h.sll.ne_zero (by simp)
  have hne := h.ne_fresh hf
  have hnext : (H.nodes b).next = c := by
    have hs := h.sll
    rw [List.append_assoc, List.singleton_append] at hs
    exact hs.next_of_split
  -- the cursor is past the first node, which is another
  have hhead : c ≠ (H.withNode r).handlerList := by
    change c ≠ H.handlerList
    rw [h.sll.head]
    intro hcw
    have hmem : c ∈ w ++ [b] := by
      rcases w with _ | ⟨d, w⟩
      · simpa using hcw
      · exact List.mem_append_left _ (List.mem_cons.2 (.inl hcw))
    exact List.disjoint_of_nodup_append h.sll.nodup hmem List.mem_cons_self
  have hclear : H.ClearOf r (w ++ [b]) (c :: v)
      ↔ ¬ (r.start < (H.nodes b).stop ∨ (H.nodes c).start < r.stop) := by
    simp [ClearOf, stopOf, startOf]
  rw [link, if_pos hc0, if_neg hhead, hb, hc]
  refine ⟨fun hcl => ?_, fun hcl => if_pos (not_not.1 (hclear.not.1 hcl))⟩
  rw [if_neg (hclear.1 hcl)]
  refine ⟨rfl, h.head_concat, rfl, ?_, fun _ => ?_, fun n hn hnl => ?_⟩
  · rw [setNext_of_ne _ _ (hne b (by simp)).symm, setNext_self, withNode_self, hnext]
    rfl
  · rw [lastD_concat, setNext_self, setNext_of_ne _ _ (hne b (by simp)), hb]
  · rw [lastD_concat] at hnl
    rw [setNext_of_ne _ _ hnl, setNext_of_ne _ _ (hne n hn)]
    exact hkeep n hn

/-- What a registration does: it splits the list where the new range belongs, and there links it or
frees it. -/
theorem register_links (h : H.Ordered l) (hf : H.FreshNode r.node) (hh : r.handler ≠ 0)
    (hr : r.start < r.stop) : ∃ u v x, l = u ++ v ∧ (∀ n ∈ u, H.startOf n ≤ r.start)
      ∧ (∀ n ∈ v.head?, r.start < H.startOf n)
      ∧ H.pagingRegisterFaultHandler r.handler r.start r.stop r.node = some x
      ∧ H.LinksOrFrees r u v x := by
  obtain ⟨hl, hkeep⟩ := h.listed.newNode ⟨r.start, r.stop, r.handler, 0⟩ hf.2
  have hlen := hl.length_le
  obtain ⟨u, v, rfl, hu, hv, hs⟩ := hl.sll.scan_eq
    (fun n => r.start < ((H.withNode r).nodes n).start) (Nat.lt_succ_of_le hlen)
  have hu' : ∀ n ∈ u, H.startOf n ≤ r.start := by
    intro n hn
    have := hu n hn
    rw [withNode, hkeep n (List.mem_append_left _ hn)] at this
    exact not_lt.1 this
  have hv' : ∀ n ∈ v.head?, r.start < H.startOf n := by
    intro n hn
    have := hv n hn
    rwa [withNode, hkeep n (List.mem_append_right _ (List.mem_of_mem_head? hn))] at this
  rw [pagingRegisterFaultHandler, if_neg hh, if_neg (not_le.2 hr), if_neg hf.1]
  by_cases h0 : H.handlerList = 0
  · -- the list is empty
    have hnil : u ++ v = [] := by
      rcases huv : u ++ v with _ | ⟨c, w⟩
      · rfl
      · have hhead := h.listed.sll.head
        rw [huv, List.headD_cons] at hhead
        exact absurd (hhead.symm.trans h0) (h.listed.sll.ne_zero (by simp [huv]))
    obtain ⟨rfl, rfl⟩ := List.append_eq_nil_iff.1 hnil
    refine ⟨[], [], _, rfl, by simp, by simp, if_neg (not_not.2 h0), fun _ => ⟨rfl, ?_⟩,
      fun hcl => absurd (by simp [ClearOf]) hcl⟩
    exact ⟨rfl, rfl, withNode_self H r, by simp, by simp⟩
  · refine ⟨u, v, (H.withNode r).link r.start r.stop r.node (v.headD 0)
      (if u = [] then (H.withNode r).handlerList else lastD u), rfl, hu', hv', ?_, ?_⟩
    · refine (if_pos h0).trans ?_
      rw [search_eq_scan]
      exact congrArg (Option.map _) hs
    rcases List.eq_nil_or_concat u with rfl | ⟨w, b, rfl⟩
    · rcases v with _ | ⟨c, v⟩
      · exact absurd h.listed.sll.head h0
      · exact link_head h.listed hf
    · rw [List.concat_eq_append] at *
      simp only [List.append_eq_nil_iff, List.cons_ne_self, and_false, if_false, lastD_concat]
      rcases v with _ | ⟨c, v⟩
      · exact link_last (by simpa using h.listed) hf
      · exact link_middle h.listed hf

theorem range_eq (H : Handlers) (n : ℕ) : H.range n = Set.Ico (H.startOf n) (H.stopOf n) := rfl

/-- A registration is accepted when the new range is clear of every other, and then the list holds
it in order; otherwise nothing changes. -/
theorem register_spec (h : H.Ordered l) (hf : H.FreshNode r.node) :
    ∃ H' e, H.pagingRegisterFaultHandler r.handler r.start r.stop r.node = some (H', e)
      ∧ (r.handler ≠ 0 → r.start < r.stop →
        (e = .noErr ↔ ∀ n ∈ l, Disjoint (Set.Ico r.start r.stop) (H.range n)))
      ∧ (e = .noErr → ∃ l', H.Added l r H' l' ∧ H'.Ordered l') ∧ (e ≠ .noErr → H.Same H') := by
  have hsame : H.Same H := ⟨rfl, rfl, fun _ _ => rfl⟩
  by_cases hh : r.handler = 0
  · exact ⟨H, .nullPointer, if_pos hh, fun h => absurd hh h, by simp, fun _ => hsame⟩
  by_cases hr : r.stop ≤ r.start
  · exact ⟨H, .unauthorizedAction, (if_neg hh).trans (if_pos hr), fun _ h => absurd hr (not_le.2 h),
      by simp, fun _ => hsame⟩
  rw [not_le] at hr
  obtain ⟨u, v, ⟨H', e⟩, rfl, hu, hv, hreg, hl⟩ := register_links h hf hh hr
  have hclear := h.order.clear_iff hr hu hv
  refine ⟨H', e, hreg, fun _ _ => ?_, fun he => ?_, fun he => ?_⟩
  · simp only [range_eq]
    rw [hclear]
    refine ⟨fun he => ?_, fun hcl => (hl.links hcl).1⟩
    by_contra hcl
    have hx := hl.frees hcl
    simp [he] at hx
  · by_cases hcl : H.ClearOf r u v
    · exact ⟨_, (hl.links hcl).2.added h hf hr hcl.1 hcl.2⟩
    · have hx := hl.frees hcl
      simp [he] at hx
  · by_cases hcl : H.ClearOf r u v
    · exact absurd (hl.links hcl).1 he
    · have hx := hl.frees hcl
      rw [Prod.mk.injEq] at hx
      rw [hx.1]
      exact same_of_kfree H _ hf.2

/-- The search meets the one range that has the address, if there is one. -/
theorem fault_spec (h : H.Ordered l) (a : ℕ) :
    ∃ o, H.pagingFaultGeneralHandler pageFaultLine a = some o
      ∧ (∀ n ∈ l, a ∈ H.range n → o = .call (H.nodes n).handler a)
      ∧ (o = .panic ↔ ∀ n ∈ l, a ∉ H.range n) := by
  obtain ⟨u, v, rfl, hu, hv, hs⟩ := h.listed.sll.scan_eq
    (fun n => (H.nodes n).start ≤ a ∧ a < (H.nodes n).stop) (Nat.lt_succ_of_le h.listed.length_le)
  have hfind : H.find a (H.alive.length + 1) H.handlerList = some (v.headD 0) := by
    rw [find_eq_scan H a _ _ H.handlerList, hs]
    rfl
  refine ⟨if v.headD 0 = 0 then .panic else .call (H.nodes (v.headD 0)).handler a, ?_, ?_⟩
  · rw [pagingFaultGeneralHandler, if_neg (not_not.2 rfl), hfind]
    rfl
  rcases v with _ | ⟨c, v⟩
  · have hnone : ∀ n ∈ u ++ [], a ∉ H.range n := by
      rw [List.append_nil]
      exact hu
    exact ⟨fun n hn ha => absurd ha (hnone n hn), fun _ => hnone, fun _ => rfl⟩
  · have hc : a ∈ H.range c := hv c rfl
    have hcmem : c ∈ u ++ c :: v := by simp
    rw [List.headD_cons, if_neg (h.listed.sll.ne_zero hcmem)]
    refine ⟨fun n hn ha => ?_, by simp, fun hno => absurd hc (hno c hcmem)⟩
    rw [h.order.eq_of_mem hn hcmem ha hc]

theorem step_ordered (h : H.Ordered l) (hs : H.step r = some H') : ∃ l', H'.Ordered l' := by
  unfold step at hs
  split_ifs at hs with hf
  obtain ⟨H₁, e, hreg, -, hadd, hsame⟩ := register_spec h hf
  rw [hreg] at hs
  cases hs
  by_cases he : e = .noErr
  · obtain ⟨l', -, hl'⟩ := hadd he
    exact ⟨l', hl'⟩
  · have hS := hsame he
    have hnodes : ∀ n ∈ l, H₁.nodes n = H.nodes n := fun n hn => hS.nodes n (h.listed.alive n hn)
    refine ⟨l, ⟨?_, fun n hn => ?_, fun n hn => ?_⟩,
      h.order.congr (fun n hn => congrArg MemHandler.start (hnodes n hn))
        fun n hn => congrArg MemHandler.stop (hnodes n hn)⟩
    · rw [hS.list]
      exact h.listed.sll.congr fun n hn => congrArg MemHandler.next (hnodes n hn)
    · rw [hS.alive]
      exact h.listed.alive n hn
    · rw [hnodes n hn]
      exact h.listed.nonempty n hn

/-- In every run of registrations the ranges are sorted and disjoint, the next registration is
accepted when its range is clear of all of them and otherwise changes nothing, and a fault goes to
the handler of the one range that has its address. -/
theorem fault_handlers_registry {H₀ : Handlers} (h0 : H₀.handlerList = 0)
    (h : Reach step anyStep H₀ H) : ∃ l, H.Listed l
      ∧ (l.Pairwise fun m n => (H.nodes m).start < (H.nodes n).start)
      ∧ (l.Pairwise fun m n => Disjoint (H.range m) (H.range n))
      ∧ (∀ r, H.FreshNode r.node →
        ∃ H' e, H.pagingRegisterFaultHandler r.handler r.start r.stop r.node = some (H', e)
          ∧ (r.handler ≠ 0 → r.start < r.stop →
            (e = .noErr ↔ ∀ n ∈ l, Disjoint (Set.Ico r.start r.stop) (H.range n)))
          ∧ (e = .noErr → ∃ l', H.Added l r H' l') ∧ (e ≠ .noErr → H.Same H'))
      ∧ ∀ a, ∃ o, H.pagingFaultGeneralHandler pageFaultLine a = some o
          ∧ (∀ n ∈ l, a ∈ H.range n → o = .call (H.nodes n).handler a)
          ∧ (o = .panic ↔ ∀ n ∈ l, a ∉ H.range n) := by
  have hnil : H₀.Ordered [] := ⟨⟨h0 ▸ .nil, by simp, by simp⟩, .nil⟩
  have hinv : ∃ l, H.Ordered l := by
    refine h.invariant (P := fun H => ∃ l, H.Ordered l) ⟨[], hnil⟩ fun H₁ r H₂ hP _ hs => ?_
    obtain ⟨l, hl⟩ := hP
    exact step_ordered hl hs
  obtain ⟨l, hl⟩ := hinv
  refine ⟨l, hl.listed, hl.order.sorted, hl.order.disjoint, fun r hf => ?_, fault_spec hl⟩
  obtain ⟨H', e, hreg, hiff, hadd, hsame⟩ := register_spec hl hf
  refine ⟨H', e, hreg, hiff, fun he => ?_, hsame⟩
  obtain ⟨l', hl', -⟩ := hadd he
  exact ⟨l', hl'⟩

def noHandlers : Handlers := ⟨fun _ => ⟨0, 0, 0, 0⟩, [], 0⟩

/-- Two ranges, the second before the first, and a third that runs from one to the other. -/
theorem fault_handlers_registry_three : ∃ H,
    runEvents (guarded step anyStep) noHandlers [⟨1, 0x3000, 0x4000, 8⟩, ⟨2, 0x1000, 0x2000, 16⟩,
      ⟨3, 0x1800, 0x3000, 24⟩] = some H
      ∧ H.pagingFaultGeneralHandler pageFaultLine 0x1800 = some (.call 2 0x1800)
      ∧ ∃ l, H.Listed l ∧ l.Pairwise fun m n => Disjoint (H.range m) (H.range n) := by
  obtain ⟨H, hrun⟩ : ∃ H, runEvents (guarded step anyStep) noHandlers
      [⟨1, 0x3000, 0x4000, 8⟩, ⟨2, 0x1000, 0x2000, 16⟩, ⟨3, 0x1800, 0x3000, 24⟩] = some H := ⟨_, rfl⟩
  have h0 : noHandlers.handlerList = 0 := rfl
  obtain ⟨l, hl, -, hd, -⟩ := fault_handlers_registry h0 (Reach.of_run hrun)
  refine ⟨H, hrun, ?_, l, hl, hd⟩
  cases hrun
  decide

end Handlers

end RTLKIM

import RTLKIM.KernelQueue

/-!
# The kernel queues are lists

An operation edits one queue at one seam of its list: a push puts a node in there (`Insert`), a pop
or a remove takes one out (`Erase`). Both keep the other queues, whose nodes are others, so each
operation does to the queue what it does to the list (`exec_spec`), and so does every run.
-/

namespace RTLKIM

namespace KernelQueues

variable {S S' : KernelQueues} {A : QueueSpec} {q node : ℕ} {u v : List ℕ}

/-! ## Edits of one queue -/

/-- `node` put in queue `q` between the nodes `u` and the nodes `v`. -/
structure Insert (S : KernelQueues) (q node : ℕ) (u v : List ℕ) (S' : KernelQueues) : Prop where
  next : S'.next node = v.headD 0
  prev : S'.prev node = lastD u
  next_last : lastD u ≠ 0 → S'.next (lastD u) = node
  prev_head : v.headD 0 ≠ 0 → S'.prev (v.headD 0) = node
  next_other : ∀ n, n ≠ node → n ≠ lastD u → S'.next n = S.next n
  prev_other : ∀ n, n ≠ node → n ≠ v.headD 0 → S'.prev n = S.prev n
  head : S'.head = Function.update S.head q ((u ++ node :: v).headD 0)
  tail : S'.tail = Function.update S.tail q (lastD (u ++ node :: v))
  enlisted : S'.enlisted = Function.update S.enlisted node 1
  alive : S'.alive = S.alive
  data : S'.data = S.data

/-- `node` taken out of queue `q` from between the nodes `u` and the nodes `v`. -/
structure Erase (S : KernelQueues) (q node : ℕ) (u v : List ℕ) (S' : KernelQueues) : Prop where
  next_last : lastD u ≠ 0 → S'.next (lastD u) = v.headD 0
  prev_head : v.headD 0 ≠ 0 → S'.prev (v.headD 0) = lastD u
  next_other : ∀ n, n ≠ node → n ≠ lastD u → S'.next n = S.next n
  prev_other : ∀ n, n ≠ node → n ≠ v.headD 0 → S'.prev n = S.prev n
  head : S'.head = Function.update S.head q ((u ++ v).headD 0)
  tail : S'.tail = Function.update S.tail q (lastD (u ++ v))
  enlisted : S'.enlisted = Function.update S.enlisted node 0
  alive : S'.alive = S.alive
  data : S'.data = S.data

namespace Refines

/-- A node of another queue is none of the nodes of this one. -/
theorem ne_of_ne (R : S.Refines A) {q' n m : ℕ} (hq : q' ≠ q) (hn : n ∈ A.lists q')
    (hm : m = 0 ∨ m ∈ A.lists q) : n ≠ m := by
  rintro rfl
  rcases hm with rfl | hm
  · exact (R.dll q').ne_zero hn
  · exact hq (R.one _ _ _ hn hm)

/-- The queues other than `q` keep their lists when the links of their nodes are kept. -/
theorem others (R : S.Refines A) {l : List ℕ} (hq : Dll S'.next S'.prev (S'.head q) l)
    (hhead : ∀ q', q' ≠ q → S'.head q' = S.head q')
    (hlinks : ∀ q', q' ≠ q → ∀ n ∈ A.lists q', S'.next n = S.next n ∧ S'.prev n = S.prev n) :
    ∀ q', Dll S'.next S'.prev (S'.head q') (Function.update A.lists q l q') := by
  intro q'
  by_cases h : q' = q
  · subst h
    rwa [Function.update_self]
  · rw [Function.update_of_ne h, hhead q' h]
    exact (R.dll q').congr (fun n hn => (hlinks q' h n hn).1) fun n hn => (hlinks q' h n hn).2

theorem insert (R : S.Refines A) (hl : A.lists q = u ++ v) (h0 : node ≠ 0) (ha : node ∈ S.alive)
    (hn : ∀ q', node ∉ A.lists q') (I : S.Insert q node u v S') :
    S'.Refines ⟨Function.update A.lists q (u ++ node :: v), S'.priority⟩ := by
  have hlast : lastD u = 0 ∨ lastD u ∈ A.lists q :=
    (lastD_mem u).imp_right fun h => hl ▸ List.mem_append_left _ h
  have hhead : v.headD 0 = 0 ∨ v.headD 0 ∈ A.lists q :=
    (headD_mem v).imp_right fun h => hl ▸ List.mem_append_right _ h
  have hne : ∀ q', ∀ n ∈ A.lists q', n ≠ node := by
    rintro q' n hn' rfl
    exact hn q' hn'
  have hdll : Dll S'.next S'.prev (S'.head q) (u ++ node :: v) := by
    have hd := R.dll q
    rw [hl] at hd
    have huv : ∀ n ∈ u ++ v, n ≠ node := fun n hn' => hne q n (hl ▸ hn')
    rw [I.head, Function.update_self]
    exact hd.insert h0 (hl ▸ hn q) I.next I.prev I.next_last I.prev_head
      (fun n hn' => I.next_other n (huv n hn')) fun n hn' => I.prev_other n (huv n hn')
  have hmem : ∀ n q', n ∈ Function.update A.lists q (u ++ node :: v) q'
      ↔ (n = node ∧ q' = q) ∨ n ∈ A.lists q' := by
    intro n q'
    by_cases hq : q' = q
    · subst hq
      rw [Function.update_self, List.perm_middle.mem_iff, List.mem_cons, hl]
      simp
    · rw [Function.update_of_ne hq]
      simp [hq]
  refine ⟨R.others hdll (fun q' hq => by rw [I.head, Function.update_of_ne hq]) ?_, fun q' => ?_,
    fun q' n hn' => ?_, fun q₁ q₂ n h1 h2 => ?_, fun n => ?_, rfl⟩
  · intro q' hq n hn'
    exact ⟨I.next_other n (hne q' n hn') (R.ne_of_ne hq hn' hlast),
      I.prev_other n (hne q' n hn') (R.ne_of_ne hq hn' hhead)⟩
  · by_cases hq : q' = q
    · subst hq
      simp [I.tail]
    · simp [I.tail, hq, R.tail]
  · rw [I.alive]
    rcases (hmem n q').1 hn' with ⟨rfl, -⟩ | hn'
    · exact ha
    · exact R.alive q' n hn'
  · rcases (hmem n q₁).1 h1 with ⟨rfl, rfl⟩ | hn₁
    · rcases (hmem _ q₂).1 h2 with ⟨-, rfl⟩ | hn₂
      · rfl
      · exact absurd hn₂ (hn q₂)
    · rcases (hmem n q₂).1 h2 with ⟨rfl, rfl⟩ | hn₂
      · exact absurd hn₁ (hn q₁)
      · exact R.one q₁ q₂ n hn₁ hn₂
  · rw [I.enlisted]
    by_cases hnn : n = node
    · subst hnn
      exact .inl ⟨Function.update_self .., q, (hmem n q).2 (.inl ⟨rfl, rfl⟩)⟩
    · rw [Function.update_of_ne hnn]
      simp only [hmem, hnn, false_and, false_or]
      exact R.enlisted n

theorem erase (R : S.Refines A) (hl : A.lists q = u ++ node :: v) (E : S.Erase q node u v S') :
    S'.Refines ⟨Function.update A.lists q (u ++ v), S'.priority⟩ := by
  have hin : node ∈ A.lists q := by simp [hl]
  have hlast : lastD u = 0 ∨ lastD u ∈ A.lists q :=
    (lastD_mem u).imp_right fun h => hl ▸ List.mem_append_left _ h
  have hhead : v.headD 0 = 0 ∨ v.headD 0 ∈ A.lists q :=
    (headD_mem v).imp_right fun h => hl ▸ List.mem_append_right _ (List.mem_cons_of_mem _ h)
  have hd := R.dll q
  rw [hl] at hd
  have hnot : node ∉ u ++ v := (List.nodup_cons.1 (List.perm_middle.nodup_iff.1 hd.nodup)).1
  have huv : ∀ n ∈ u ++ v, n ≠ node := by
    rintro n hn rfl
    exact hnot hn
  have hdll : Dll S'.next S'.prev (S'.head q) (u ++ v) := by
    rw [E.head, Function.update_self]
    exact hd.erase E.next_last E.prev_head (fun n hn => E.next_other n (huv n hn))
      fun n hn => E.prev_other n (huv n hn)
  have hmem : ∀ n q', n ∈ Function.update A.lists q (u ++ v) q' ↔ n ≠ node ∧ n ∈ A.lists q' := by
    intro n q'
    by_cases hq : q' = q
    · subst hq
      rw [Function.update_self, hl, List.perm_middle.mem_iff, List.mem_cons]
      exact ⟨fun hn => ⟨huv n hn, .inr hn⟩, fun hn => hn.2.resolve_left hn.1⟩
    · rw [Function.update_of_ne hq]
      exact ⟨fun hn => ⟨R.ne_of_ne hq hn (.inr hin), hn⟩, fun hn => hn.2⟩
  refine ⟨R.others hdll (fun q' hq => by rw [E.head, Function.update_of_ne hq]) ?_, fun q' => ?_,
    fun q' n hn => ?_, fun q₁ q₂ n h1 h2 => ?_, fun n => ?_, rfl⟩
  · intro q' hq n hn
    have hne := R.ne_of_ne hq hn (.inr hin)
    exact ⟨E.next_other n hne (R.ne_of_ne hq hn hlast),
      E.prev_other n hne (R.ne_of_ne hq hn hhead)⟩
  · by_cases hq : q' = q
    · subst hq
      simp [E.tail]
    · simp [E.tail, hq, R.tail]
  · rw [E.alive]
    exact R.alive q' n ((hmem n q').1 hn).2
  · exact R.one q₁ q₂ n ((hmem n q₁).1 h1).2 ((hmem n q₂).1 h2).2
  · rw [E.enlisted]
    by_cases hnn : n = node
    · subst hnn
      exact .inr ⟨Function.update_self .., fun q' hn => ((hmem n q').1 hn).1 rfl⟩
    · rw [Function.update_of_ne hnn]
      simp only [hmem, ne_eq, hnn, not_false_eq_true, true_and]
      exact R.enlisted n

end Refines

/-! ## Linking a node -/

/-- The loops split the list of the queue. -/
theorem Refines.seek_eq (R : S.Refines A) (q : ℕ) (hit : ℕ → Prop) [DecidablePred hit] :
    ∃ u v, A.lists q = u ++ v ∧ (∀ n ∈ u, ¬ hit n) ∧ (∀ n ∈ v.head?, hit n)
      ∧ S.seek q hit = some (v.headD 0) := by
  have hlen : (A.lists q).length ≤ S.alive.length :=
    (R.dll q).nodup.length_le_of_subset (R.alive q)
  have hs : Sll S.next (S.head q) (A.lists q) := ⟨S.prev, R.dll q⟩
  obtain ⟨u, v, hl, hu, hv, hs⟩ := hs.scan_eq hit (Nat.lt_succ_of_le hlen)
  refine ⟨u, v, hl, hu, hv, ?_⟩
  rw [seek, hs]
  rfl

theorem Refines.head_eq_zero (R : S.Refines A) : S.head q = 0 ↔ A.lists q = [] := by
  have hd := R.dll q
  constructor
  · intro h
    rcases hl : A.lists q with _ | ⟨c, l⟩
    · rfl
    · rw [hl] at hd
      exact absurd (hd.head.symm.trans h ▸ List.mem_cons_self) hd.ne_zero
  · intro h
    rw [hd.head, h]
    rfl

/-- The new node has two neighbours that differ, so the check at the end passes. -/
theorem enlist_spec {S₁ : KernelQueues} (R : S.Refines A) (hl : A.lists q = u ++ v)
    (I : S.Insert q node u v (S₁.setEnlisted node 1)) :
    ∃ S', S₁.enlist node q = (S', .code .noErr) ∧ S.Insert q node u v S'
      ∧ S'.priority = S₁.priority := by
  have hnext : S₁.next node = v.headD 0 := I.next
  have hprev : S₁.prev node = lastD u := I.prev
  refine ⟨(S₁.setSize q (add32 (S₁.size q) 1)).setEnlisted node 1, if_neg ?_,
    ⟨I.next, I.prev, I.next_last, I.prev_head, I.next_other, I.prev_other, I.head, I.tail,
      I.enlisted, I.alive, I.data⟩, rfl⟩
  change ¬ (S₁.next node ≠ 0 ∧ S₁.prev node ≠ 0 ∧ S₁.next node = S₁.prev node)
  rw [hnext, hprev]
  rintro ⟨h1, h2, h3⟩
  have hnd := (R.dll q).nodup
  rw [hl] at hnd
  exact List.disjoint_of_nodup_append hnd ((lastD_mem u).resolve_left h2)
    (h3 ▸ (headD_mem v).resolve_left h1)

/-- The only node of an empty queue. -/
theorem insert_only (S : KernelQueues) (node q : ℕ) :
    S.Insert q node [] [] ((S.only node q).setEnlisted node 1) := by
  refine ⟨?_, ?_, by simp, by simp, fun n hn _ => ?_, fun n hn _ => ?_, rfl, rfl, rfl, rfl, rfl⟩
  all_goals simp [only, *]

/-- A node before the head. -/
theorem Refines.insert_head {c : ℕ} (R : S.Refines A) (hl : A.lists q = c :: v)
    (hn : node ∉ c :: v) : S.Insert q node [] (c :: v) ((((((S.setNext node (S.head q)).setPrev node
      0).setPrev (S.head q) node).setHead q node)).setEnlisted node 1) := by
  have hhead : S.head q = c := by
    rw [(R.dll q).head, hl]
    rfl
  have hne : c ≠ node := by
    rintro rfl
    exact hn List.mem_cons_self
  have htail : Function.update S.tail q (lastD (node :: c :: v)) = S.tail := by
    rw [Function.update_eq_self_iff, R.tail, hl]
    simp [lastD]
  refine ⟨?_, ?_, by simp, fun _ => ?_, fun n hn _ => ?_, fun n hn hnc => ?_, rfl, htail.symm, rfl,
    rfl, rfl⟩
  · simp [hhead]
  · simp [hhead, hne.symm]
  · simp [hhead]
  · simp [hn]
  · rw [List.headD_cons] at hnc
    simp [hhead, hn, hnc]

/-- A node before the node where the loop of `kernel_queue_push_prio` stops. -/
theorem Refines.insert_before {c : ℕ} (R : S.Refines A) (hl : A.lists q = u ++ c :: v)
    (hn : node ∉ u ++ c :: v) :
    S.Insert q node u (c :: v) ((S.insertAt node q c).setEnlisted node 1) := by
  have hd := R.dll q
  rw [hl] at hd
  have hc0 : c ≠ 0 := by
    rintro rfl
    exact hd.ne_zero (by simp)
  have hprev : S.prev c = lastD u := hd.links_of_split.2
  have hne : c ≠ node := by
    rintro rfl
    exact hn (by simp)
  have htail : Function.update S.tail q (lastD (u ++ node :: c :: v)) = S.tail := by
    rw [Function.update_eq_self_iff, R.tail, hl]
    simp [lastD]
  rcases List.eq_nil_or_concat u with rfl | ⟨w, b, rfl⟩
  · have hS : S.insertAt node q c
        = (((S.setNext node c).setPrev node 0).setPrev c node).setHead q node := by
      simp [insertAt, hc0, hprev, hne.symm]
    rw [hS]
    refine ⟨by simp, by simp [hne.symm], by simp, by simp, fun n hn _ => by simp [hn],
      fun n hn hnc => ?_, rfl, htail.symm, rfl, rfl, rfl⟩
    rw [List.headD_cons] at hnc
    simp [hn, hnc]
  · rw [List.concat_eq_append] at *
    have hb0 : b ≠ 0 := by
      rintro rfl
      exact hd.ne_zero (by simp)
    have hbn : b ≠ node := by
      rintro rfl
      exact hn (by simp)
    rw [lastD_concat] at hprev
    have hS : S.insertAt node q c
        = (((S.setNext node c).setPrev node b).setPrev c node).setNext b node := by
      simp [insertAt, hc0, hprev, hne.symm, hb0]
    have hhead : Function.update S.head q (((w ++ [b]) ++ node :: c :: v).headD 0) = S.head := by
      rw [Function.update_eq_self_iff, hd.head]
      simp
    rw [hS]
    refine ⟨by simp [hbn.symm], by simp [hne.symm], by simp, by simp, fun n hn hnb => ?_,
      fun n hn hnc => ?_, hhead.symm, htail.symm, rfl, rfl, rfl⟩
    · rw [lastD_concat] at hnb
      simp [hn, hnb]
    · rw [List.headD_cons] at hnc
      simp [hn, hnc]

/-- A node after the tail. -/
theorem Refines.insert_last {b : ℕ} (R : S.Refines A) (hl : A.lists q = u ++ [b])
    (hn : node ∉ u ++ [b]) :
    S.Insert q node (u ++ [b]) [] ((S.insertAt node q 0).setEnlisted node 1) := by
  have hbn : b ≠ node := by
    rintro rfl
    exact hn (by simp)
  have ht : S.tail q = b := by
    rw [R.tail, hl, lastD_concat]
  have hS : S.insertAt node q 0
      = (((S.setPrev node b).setNext node 0).setNext b node).setTail q node := by
    simp [insertAt, ht]
  have hhead : Function.update S.head q ((u ++ [b] ++ [node]).headD 0) = S.head := by
    rw [Function.update_eq_self_iff, (R.dll q).head, hl]
    simp
  rw [hS]
  refine ⟨by simp [hbn.symm], by simp, by simp, by simp, fun n hn hnb => ?_,
    fun n hn _ => by simp [hn], hhead.symm, ?_, rfl, rfl, rfl⟩
  · rw [lastD_concat] at hnb
    simp [hn, hnb]
  · rw [lastD_concat]
    rfl

/-! ## Unlinking a node -/

/-- The fields of a node that is taken out. -/
def clear (S : KernelQueues) (node : ℕ) : KernelQueues :=
  ((S.setNext node 0).setPrev node 0).setEnlisted node 0

theorem Refines.erase_unlink (R : S.Refines A) (hl : A.lists q = u ++ node :: v) :
    S.Erase q node u v ((S.unlink q node).clear node) := by
  have hd := R.dll q
  rw [hl] at hd
  obtain ⟨hnext, hprev⟩ := hd.links_of_split
  have hnot : node ∉ u ++ v := (List.nodup_cons.1 (List.perm_middle.nodup_iff.1 hd.nodup)).1
  have htail : S.tail q = lastD (u ++ node :: v) := hl ▸ R.tail q
  rcases List.eq_nil_or_concat u with rfl | ⟨u, a, rfl⟩
  · rcases v with _ | ⟨c, v⟩
    · have hS : S.unlink q node = (S.setHead q 0).setTail q 0 := by
        simp [unlink, hnext, hprev]
      rw [hS]
      refine ⟨by simp, by simp, fun n hn _ => by simp [clear, hn], fun n hn _ => by simp [clear, hn],
        by simp [clear], by simp [clear], by simp [clear], rfl, rfl⟩
    · have hc0 : c ≠ 0 := by
        rintro rfl
        exact hd.ne_zero (by simp)
      have hcn : c ≠ node := by
        rintro rfl
        exact hnot (by simp)
      have hS : S.unlink q node = (S.setHead q c).setPrev c 0 := by
        simp [unlink, hnext, hprev, hc0]
      have ht : Function.update S.tail q (lastD (c :: v)) = S.tail := by
        rw [Function.update_eq_self_iff, htail]
        simp [lastD]
      rw [hS]
      refine ⟨by simp, fun _ => by simp [clear, hcn], fun n hn _ => by simp [clear, hn],
        fun n hn hnc => ?_, by simp [clear], by simp [clear, ht], by simp [clear], rfl, rfl⟩
      rw [List.headD_cons] at hnc
      simp [clear, hn, hnc]
  · rw [List.concat_eq_append] at *
    rw [lastD_concat] at hprev
    have ha0 : a ≠ 0 := by
      rintro rfl
      exact hd.ne_zero (by simp)
    have han : a ≠ node := by
      rintro rfl
      exact hnot (by simp)
    have hhead : Function.update S.head q (((u ++ [a]) ++ v).headD 0) = S.head := by
      rw [Function.update_eq_self_iff, hd.head]
      simp
    rcases v with _ | ⟨c, v⟩
    · have hS : S.unlink q node = (S.setTail q a).setNext a 0 := by
        simp [unlink, hnext, hprev, ha0]
      rw [hS]
      refine ⟨fun _ => by simp [clear, han], by simp, fun n hn hna => ?_,
        fun n hn _ => by simp [clear, hn], hhead.symm, by simp [clear], by simp [clear], rfl, rfl⟩
      rw [lastD_concat] at hna
      simp [clear, hn, hna]
    · have hc0 : c ≠ 0 := by
        rintro rfl
        exact hd.ne_zero (by simp)
      have hcn : c ≠ node := by
        rintro rfl
        exact hnot (by simp)
      have hS : S.unlink q node = (S.setNext a c).setPrev c a := by
        simp [unlink, hnext, hprev, ha0, hc0, han.symm]
      have ht : Function.update S.tail q (lastD ((u ++ [a]) ++ c :: v)) = S.tail := by
        rw [Function.update_eq_self_iff, htail]
        simp [lastD]
      rw [hS]
      refine ⟨fun _ => by simp [clear, han], fun _ => by simp [clear, hcn], fun n hn hna => ?_,
        fun n hn hnc => ?_, hhead.symm, ht.symm, by simp [clear], rfl, rfl⟩
      · rw [lastD_concat] at hna
        simp [clear, hn, hna]
      · rw [List.headD_cons] at hnc
        simp [clear, hn, hnc]

/-- `kernel_queue_pop` unlinks the tail as `kernel_queue_remove` does. -/
theorem Refines.erase_tail {b : ℕ} (R : S.Refines A) (hl : A.lists q = u ++ [b]) (w : ℕ) :
    S.Erase q b u [] (((if S.prev b ≠ 0 then (S.setNext (S.prev b) 0).setTail q (S.prev b)
      else (S.setHead q 0).setTail q 0).setSize q w).clear b) := by
  have hd := R.dll q
  rw [hl] at hd
  have hnext : S.next b = 0 := hd.links_of_split.1
  have hunlink : S.unlink q b = if S.prev b ≠ 0 then (S.setNext (S.prev b) 0).setTail q (S.prev b)
      else (S.setHead q 0).setTail q 0 := by
    by_cases hp : S.prev b = 0
    · simp [unlink, hnext, hp]
    · simp [unlink, hnext, hp]
      rfl
  have E := R.erase_unlink hl
  rw [hunlink] at E
  exact ⟨E.next_last, E.prev_head, E.next_other, E.prev_other, E.head, E.tail, E.enlisted,
    E.alive, E.data⟩

/-! ## The operations -/

/-- What an operation does is what its counterpart does to the lists. -/
def Matches (S : KernelQueues) (A : QueueSpec) (op : QueueOp) : Prop :=
  ∃ S', S.exec op = some (S', (A.step S.data op).2) ∧ S'.alive = S.alive ∧ S'.data = S.data
    ∧ S'.Refines (A.step S.data op).1

/-- An operation that is refused changes nothing. -/
theorem Refines.refused {op : QueueOp} {r : QueueRes} (R : S.Refines A)
    (hexec : S.exec op = some (S, r)) (hstep : A.step S.data op = (A, r)) : S.Matches A op := by
  refine ⟨S, ?_, rfl, rfl, ?_⟩
  · rw [hexec, hstep]
  · rw [hstep]
    exact R

/-- A node that is in no queue put in one. -/
theorem Refines.inserted {S₁ : KernelQueues} (R : S.Refines A) (hl : A.lists q = u ++ v)
    (h0 : node ≠ 0) (hn : node ∈ S.alive ∧ ∀ q', node ∉ A.lists q')
    (I : S.Insert q node u v (S₁.setEnlisted node 1)) (hp : S₁.priority = A.priority) :
    ∃ S', S₁.enlist node q = (S', .code .noErr) ∧ S'.alive = S.alive ∧ S'.data = S.data
      ∧ S'.Refines (A.setList q (u ++ node :: v)) := by
  obtain ⟨S', he, hI, hp'⟩ := enlist_spec R hl I
  refine ⟨S', he, hI.alive, hI.data, ?_⟩
  rw [QueueSpec.setList, ← hp, ← hp']
  exact R.insert hl h0 hn.1 hn.2 hI

theorem Refines.push (R : S.Refines A) (h : A.Legal S.alive (.push node q)) :
    S.Matches A (.push node q) := by
  by_cases h0 : node = 0 ∨ q = 0
  · exact R.refused (if_pos h0) (if_pos h0)
  have hn : node ∈ S.alive ∧ ∀ q', node ∉ A.lists q' := by
    have := h
    simp only [QueueSpec.Legal] at this
    tauto
  rw [not_or] at h0
  simp only [Matches, exec, KernelQueues.push, QueueSpec.step, h0.1, h0.2, or_self, if_false]
  rcases hl : A.lists q with _ | ⟨c, v⟩
  · obtain ⟨S', he, h1⟩ := R.inserted hl h0.1 hn (insert_only S node q) R.priority
    exact ⟨S', by rw [if_pos (R.head_eq_zero.2 hl), he], h1⟩
  · obtain ⟨S', he, h1⟩ := R.inserted (u := []) hl h0.1 hn (R.insert_head hl (hl ▸ hn.2 q))
      R.priority
    have hne : S.head q ≠ 0 := fun h => by simp [R.head_eq_zero.1 h] at hl
    refine ⟨S', ?_, h1⟩
    rw [if_neg hne]
    exact congrArg some he

theorem insertAt_priority (S : KernelQueues) (node q cursor : ℕ) :
    (S.insertAt node q cursor).priority = S.priority := by
  simp only [insertAt]
  split_ifs
  all_goals rfl

theorem unlink_priority (S : KernelQueues) (q cursor : ℕ) :
    (S.unlink q cursor).priority = S.priority := by
  unfold unlink
  split_ifs
  all_goals rfl

/-- The list split where the loop of `kernel_queue_push_prio` stops. -/
theorem insertPrio_eq {f : ℕ → ℕ} {p : ℕ} (hu : ∀ n ∈ u, ¬ f n ≤ p) (hv : ∀ n ∈ v.head?, f n ≤ p) :
    QueueSpec.insertPrio f node p (u ++ v) = u ++ node :: v := by
  have hu' : ∀ n ∈ u, decide (p < f n) = true := fun n hn => by simpa using hu n hn
  have hv' : v.takeWhile (fun n => p < f n) = [] ∧ v.dropWhile (fun n => p < f n) = v := by
    rcases v with _ | ⟨c, v⟩
    · exact ⟨rfl, rfl⟩
    · have hc : ¬ p < f c := not_lt.2 (hv c rfl)
      simp [hc]
  rw [QueueSpec.insertPrio, List.takeWhile_append_of_pos hu', List.dropWhile_append_of_pos hu',
    hv'.1, hv'.2, List.append_nil]

theorem Refines.pushPrio {p : ℕ} (R : S.Refines A) (h : A.Legal S.alive (.pushPrio node q p)) :
    S.Matches A (.pushPrio node q p) := by
  by_cases h0 : node = 0 ∨ q = 0
  · exact R.refused (if_pos h0) (if_pos h0)
  have hn : node ∈ S.alive ∧ ∀ q', node ∉ A.lists q' := by
    have := h
    simp only [QueueSpec.Legal] at this
    tauto
  rw [not_or] at h0
  simp only [Matches, exec, KernelQueues.pushPrio, QueueSpec.step, h0.1, h0.2, or_self, if_false]
  -- from here on the node has its priority
  have R' : (S.setPriority node p).Refines
      ⟨A.lists, Function.update A.priority node p⟩ := by
    refine ⟨R.dll, R.tail, R.alive, R.one, R.enlisted, ?_⟩
    rw [setPriority_priority, R.priority]
  by_cases hl : A.lists q = []
  · obtain ⟨S', he, h1⟩ := R'.inserted hl h0.1 hn (insert_only _ node q) R'.priority
    refine ⟨S', by rw [if_pos (R'.head_eq_zero.2 hl), he], ?_⟩
    rw [hl]
    exact h1
  · obtain ⟨u, v, huv, hu, hv, hs⟩ := R'.seek_eq q fun n => (S.setPriority node p).priority n ≤ p
    have hprio : ∀ n ∈ u ++ v, (S.setPriority node p).priority n = A.priority n := by
      intro n hn'
      have hne : n ≠ node := by
        rintro rfl
        exact hn.2 q (huv ▸ hn')
      rw [setPriority_priority, Function.update_of_ne hne, R.priority]
    have hins : QueueSpec.insertPrio A.priority node p (A.lists q) = u ++ node :: v := by
      rw [show A.lists q = u ++ v from huv]
      refine insertPrio_eq (fun n hn' => ?_) fun n hn' => ?_
      · rw [← hprio n (List.mem_append_left _ hn')]
        exact hu n hn'
      · rw [← hprio n (List.mem_append_right _ (List.mem_of_mem_head? hn'))]
        exact hv n hn'
    have hI : (S.setPriority node p).Insert q node u v
        (((S.setPriority node p).insertAt node q (v.headD 0)).setEnlisted node 1) := by
      have hnot : node ∉ u ++ v := huv ▸ hn.2 q
      rcases v with _ | ⟨c, v⟩
      · rcases List.eq_nil_or_concat u with rfl | ⟨w, b, rfl⟩
        · exact absurd huv hl
        · rw [List.concat_eq_append] at *
          exact R'.insert_last (by simpa using huv) (by simpa using hnot)
      · exact R'.insert_before huv hnot
    have hp : ((S.setPriority node p).insertAt node q (v.headD 0)).priority
        = Function.update A.priority node p := (insertAt_priority _ node q _).trans R'.priority
    obtain ⟨S', he, h1⟩ := R'.inserted huv h0.1 hn hI hp
    have hne : (S.setPriority node p).head q ≠ 0 := fun h => hl (R'.head_eq_zero.1 h)
    refine ⟨S', ?_, ?_⟩
    · rw [if_neg hne, hs, Option.map_some, he]
    · rw [hins]
      exact h1

/-- A node taken out of a queue. -/
theorem Refines.erased (R : S.Refines A) (hl : A.lists q = u ++ node :: v)
    (E : S.Erase q node u v S') (hp : S'.priority = S.priority) :
    S'.alive = S.alive ∧ S'.data = S.data ∧ S'.Refines (A.setList q (u ++ v)) := by
  refine ⟨E.alive, E.data, ?_⟩
  rw [QueueSpec.setList, ← R.priority, ← hp]
  exact R.erase hl E

theorem Refines.pop (R : S.Refines A) : S.Matches A (.pop q) := by
  by_cases h0 : q = 0
  · exact R.refused (if_pos h0) (if_pos h0)
  simp only [Matches, exec, KernelQueues.pop, QueueSpec.step, h0, if_false]
  rcases List.eq_nil_or_concat (A.lists q) with hl | ⟨u, b, hl⟩
  · refine ⟨S, ?_, rfl, rfl, ?_⟩
    · rw [if_pos (R.head_eq_zero.2 hl), hl]
      rfl
    · have hA : A.setList q [] = A := by
        rw [QueueSpec.setList, ← hl, Function.update_eq_self]
      rw [hl, List.dropLast_nil, hA]
      exact R
  · rw [List.concat_eq_append] at hl
    have hne : S.head q ≠ 0 := fun h => by simp [R.head_eq_zero.1 h] at hl
    have hb : S.tail q = b := by rw [R.tail, hl, lastD_concat]
    have hp : ((if S.prev b ≠ 0 then (S.setNext (S.prev b) 0).setTail q (S.prev b)
        else (S.setHead q 0).setTail q 0)).priority = S.priority := by
      split_ifs
      all_goals rfl
    have h1 := fun w => R.erased hl (R.erase_tail hl w) hp
    simp only [List.append_nil] at h1
    rw [if_neg hne, hl, lastD_concat, List.dropLast_concat, hb]
    exact ⟨_, rfl, h1 _⟩

theorem Refines.find {d : ℕ} (R : S.Refines A) : S.Matches A (.find q d) := by
  by_cases h0 : q = 0
  · exact R.refused (if_pos h0) (if_pos h0)
  obtain ⟨u, v, hl, hu, hv, hs⟩ := R.seek_eq q fun n => S.data n = d
  simp only [Matches, exec, KernelQueues.find, QueueSpec.step, h0, if_false, hs, Option.map_some]
  have hnone : u.find? (fun n => S.data n = d) = none := by
    simpa using hu
  rcases v with _ | ⟨c, v⟩
  · have hf : (A.lists q).find? (fun n => S.data n = d) = none := by
      rw [hl, List.append_nil, hnone]
    rw [hf]
    exact ⟨S, rfl, rfl, rfl, R⟩
  · have hc : S.data c = d := hv c rfl
    have hc0 : c ≠ 0 := by
      rintro rfl
      exact (R.dll q).ne_zero (by simp [hl])
    have hf : (A.lists q).find? (fun n => S.data n = d) = some c := by
      rw [hl, List.find?_append, hnone, Option.none_or, List.find?_cons_of_pos (by simpa using hc)]
    rw [hf]
    exact ⟨S, by rw [List.headD_cons, if_neg hc0], rfl, rfl, R⟩

theorem Refines.remove (R : S.Refines A) : S.Matches A (.remove q node) := by
  by_cases h0 : q = 0 ∨ node = 0
  · exact R.refused (if_pos h0) (if_pos h0)
  obtain ⟨u, v, hl, hu, hv, hs⟩ := R.seek_eq q fun n => n = node
  simp only [Matches, exec, KernelQueues.remove, QueueSpec.step, if_neg h0, hs, Option.map_some]
  rw [not_or] at h0
  have hnot : node ∉ u := fun h => hu node h rfl
  rcases v with _ | ⟨c, v⟩
  · have hm : node ∉ A.lists q := by simpa [hl] using hnot
    rw [if_neg hm]
    exact ⟨S, rfl, rfl, rfl, R⟩
  · obtain rfl : c = node := hv c rfl
    have hm : c ∈ A.lists q := by simp [hl]
    have he : (A.lists q).erase c = u ++ v := by
      rw [hl, List.erase_append_right _ hnot, List.erase_cons_head]
    have h1 := R.erased hl (R.erase_unlink hl) (unlink_priority S q c)
    rw [if_pos hm, he]
    exact ⟨_, by rw [List.headD_cons, if_neg h0.2]; rfl, h1⟩

/-! ## Runs -/

theorem Refines.exec (R : S.Refines A) {op : QueueOp} (h : A.Legal S.alive op) :
    S.Matches A op := by
  cases op with
  | push node q => exact R.push h
  | pushPrio node q p => exact R.pushPrio h
  | pop q => exact R.pop
  | find q d => exact R.find
  | remove q node => exact R.remove

theorem Refines.execAll : ∀ {ops : List QueueOp} {S : KernelQueues} {A : QueueSpec}, S.Refines A →
    A.LegalRun S.alive S.data ops →
    ∃ S', S.execAll ops = some (S', (A.runAll S.data ops).2) ∧ S'.Refines (A.runAll S.data ops).1
  | [], S, A, R, _ => ⟨S, rfl, R⟩
  | op :: ops, S, A, R, h => by
    obtain ⟨S₁, h1, ha, hd, R₁⟩ := R.exec h.1
    have hrest : (A.step S.data op).1.LegalRun S₁.alive S₁.data ops := by
      rw [ha, hd]
      exact h.2
    obtain ⟨S₂, h2, R₂⟩ := Refines.execAll R₁ hrest
    rw [hd] at h2 R₂
    refine ⟨S₂, ?_, R₂⟩
    rw [KernelQueues.execAll, h1]
    change Option.map _ (S₁.execAll ops) = _
    rw [h2]
    rfl

theorem step_ne_panic (d : ℕ → ℕ) (A : QueueSpec) (op : QueueOp) : (A.step d op).2 ≠ .panic := by
  cases op
  all_goals
    simp only [QueueSpec.step]
    repeat' split
    all_goals simp

theorem runAll_ne_panic (d : ℕ → ℕ) : ∀ (ops : List QueueOp) (A : QueueSpec),
    .panic ∉ (A.runAll d ops).2
  | [], _ => by simp [QueueSpec.runAll]
  | op :: ops, A => by
    rw [QueueSpec.runAll, List.mem_cons, not_or]
    exact ⟨(step_ne_panic d A op).symm, runAll_ne_panic d ops _⟩

theorem Unused.refines (h : S.Unused) : S.Refines ⟨fun _ => [], S.priority⟩ := by
  refine ⟨fun q => ?_, h.tail, by simp, by simp, fun n => .inr ⟨h.enlisted n, by simp⟩, rfl⟩
  rw [h.head q]
  exact .nil

/-- From queues that are empty, every run of the operations in which a node is pushed only while it
is in no queue returns what the operations on lists return, never comes to `kernel_panic`, and
leaves queues that are the lists. -/
theorem kernel_queues_are_lists (h0 : S.Unused) (ops : List QueueOp)
    (h : QueueSpec.LegalRun S.alive S.data ⟨fun _ => [], S.priority⟩ ops) :
    ∃ S' rs, S.execAll ops = some (S', rs)
      ∧ rs = (QueueSpec.runAll S.data ⟨fun _ => [], S.priority⟩ ops).2 ∧ .panic ∉ rs
      ∧ S'.Refines (QueueSpec.runAll S.data ⟨fun _ => [], S.priority⟩ ops).1 := by
  obtain ⟨S', h1, h2⟩ := h0.refines.execAll h
  exact ⟨S', _, h1, rfl, runAll_ne_panic _ _ _, h2⟩

/-- Nodes `1` to `4`, carrying `10` times their address, and queues without a node. -/
def unusedQueues : KernelQueues :=
  ⟨fun _ => 0, fun _ => 0, fun _ => 0, fun _ => 0, fun n => 10 * n, fun _ => 0, fun _ => 0, fun _ => 0,
    [1, 2, 3, 4]⟩

/-- Three nodes by priority in queue `1`, one taken from the middle, one from the end and put in
queue `2`. -/
theorem kernel_queues_are_lists_four :
    ∃ S rs, unusedQueues.execAll [.pushPrio 1 1 5, .pushPrio 2 1 7, .pushPrio 3 1 6, .find 1 30,
        .remove 1 3, .remove 1 4, .pop 1, .push 1 2, .pop 3] = some (S, rs)
      ∧ rs = [.code .noErr, .code .noErr, .code .noErr, .node 3 .noErr, .code .noErr,
        .code .noSuchId, .node 1 .noErr, .code .noErr, .node 0 .noErr]
      ∧ S.head 1 = 2 ∧ S.tail 1 = 2 ∧ S.tail 2 = 1 := by
  obtain ⟨S, rs, h1, h2, -, R⟩ := kernel_queues_are_lists (S := unusedQueues)
    ⟨fun _ => rfl, fun _ => rfl, fun _ => rfl⟩ [.pushPrio 1 1 5, .pushPrio 2 1 7, .pushPrio 3 1 6,
      .find 1 30, .remove 1 3, .remove 1 4, .pop 1, .push 1 2, .pop 3] (by
      simp [QueueSpec.LegalRun, QueueSpec.Legal, QueueSpec.step, QueueSpec.setList,
        QueueSpec.insertPrio, unusedQueues, Function.update_apply])
  exact ⟨S, rs, h1, h2.trans (by decide), (R.dll 1).head.trans (by decide),
    (R.tail 1).trans (by decide), (R.tail 2).trans (by decide)⟩

end KernelQueues

end RTLKIM

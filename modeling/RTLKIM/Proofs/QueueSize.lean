import RTLKIM.Proofs.KernelQueue

/-!
# The size of a kernel queue

Both pushes and the pop keep `size` in step with the list, and `kernel_queue_remove` does not touch
it. So the size is ahead of the list by the nodes removed, modulo the width of the counter.
-/

namespace RTLKIM

/-- Nodes at addresses below `N` that are not `NULL`. -/
theorem Dll.length_lt {nx pv : ℕ → ℕ} {p N : ℕ} {l : List ℕ} (h : Dll nx pv p l) (h0 : 0 < N)
    (hl : ∀ n ∈ l, n < N) : l.length < N := by
  have hnd : (0 :: l).Nodup := List.nodup_cons.2 ⟨h.ne_zero, h.nodup⟩
  have hsub : 0 :: l ⊆ List.range N := by
    intro n hn
    rcases List.mem_cons.1 hn with rfl | hn
    · exact List.mem_range.2 h0
    · exact List.mem_range.2 (hl n hn)
  have hlen := hnd.length_le_of_subset hsub
  rwa [List.length_range, List.length_cons, Nat.succ_le_iff] at hlen

theorem QueueSpec.length_insertPrio (f : ℕ → ℕ) (node p : ℕ) (l : List ℕ) :
    (insertPrio f node p l).length = l.length + 1 := by
  rw [insertPrio, List.length_append, List.length_cons, ← Nat.add_assoc, ← List.length_append,
    List.takeWhile_append_dropWhile]

namespace KernelQueues

variable {S S' : KernelQueues} {A A' : QueueSpec} {q q' node c : ℕ} {r : QueueRes} {l : List ℕ}

/-! ## The counter -/

theorem enlist_size {S₁ : KernelQueues} (h : S₁.enlist node q = (S', r))
    (hs : S₁.size = S.size) :
    S'.size = Function.update S.size q (add32 (S.size q) 1) := by
  simp only [enlist] at h
  rw [← hs]
  split_ifs at h
  · cases h
    rfl
  · cases h
    rfl

theorem insertAt_size (S : KernelQueues) (node q cursor : ℕ) :
    (S.insertAt node q cursor).size = S.size := by
  simp only [insertAt]
  split_ifs
  all_goals rfl

theorem unlink_size (S : KernelQueues) (q cursor : ℕ) : (S.unlink q cursor).size = S.size := by
  unfold unlink
  split_ifs
  all_goals rfl

theorem push_size (h0 : ¬ (node = 0 ∨ q = 0)) (h : S.push node q = some (S', r)) :
    S'.size = Function.update S.size q (add32 (S.size q) 1) := by
  rw [push, if_neg h0] at h
  split_ifs at h
  · exact enlist_size (Option.some_inj.1 h) rfl
  · exact enlist_size (Option.some_inj.1 h) rfl

theorem pushPrio_size {p : ℕ} (h0 : ¬ (node = 0 ∨ q = 0))
    (h : S.pushPrio node q p = some (S', r)) :
    S'.size = Function.update S.size q (add32 (S.size q) 1) := by
  rw [pushPrio, if_neg h0] at h
  dsimp only at h
  split_ifs at h
  · exact enlist_size (Option.some_inj.1 h) rfl
  · obtain ⟨cursor, -, h⟩ := Option.map_eq_some_iff.1 h
    exact enlist_size h (insertAt_size _ node q cursor)

theorem pop_size (h0 : q ≠ 0) (hh : S.head q ≠ 0) (h : S.pop q = some (S', r)) :
    S'.size = Function.update S.size q (sub32 (S.size q) 1) := by
  rw [pop, if_neg h0, if_neg hh] at h
  obtain rfl := congrArg Prod.fst (Option.some_inj.1 h)
  dsimp only
  split_ifs
  all_goals rfl

/-- `kernel_queue_remove` does not count. -/
theorem remove_size (h : S.remove q node = some (S', r)) : S'.size = S.size := by
  rw [remove] at h
  split_ifs at h with h0
  · cases h
    rfl
  · obtain ⟨cursor, -, h⟩ := Option.map_eq_some_iff.1 h
    split_ifs at h
    · cases h
      rfl
    · cases h
      exact unlink_size S q cursor

/-! ## The counter and the list -/

/-- The size of queue `q` counts its nodes and `c` more. -/
def Sized (S : KernelQueues) (A : QueueSpec) (q c : ℕ) : Prop :=
  S.size q = ((A.lists q).length + c) % 2 ^ 32

theorem Sized.grow (h : S.Sized A q c)
    (hs : S'.size = Function.update S.size q' (add32 (S.size q') 1))
    (hA : A'.lists = Function.update A.lists q' l) (hl : l.length = (A.lists q').length + 1) :
    S'.Sized A' q c := by
  unfold Sized at *
  rw [hs, hA]
  by_cases hq : q = q'
  · subst hq
    rw [Function.update_self, Function.update_self, h, hl]
    unfold add32
    omega
  · rwa [Function.update_of_ne hq, Function.update_of_ne hq]

theorem Sized.shrink (h : S.Sized A q c)
    (hs : S'.size = Function.update S.size q' (sub32 (S.size q') 1))
    (hA : A'.lists = Function.update A.lists q' l) (hl : (A.lists q').length = l.length + 1) :
    S'.Sized A' q c := by
  unfold Sized at *
  rw [hs, hA]
  by_cases hq : q = q'
  · subst hq
    rw [Function.update_self, Function.update_self, h, hl]
    unfold sub32
    omega
  · rwa [Function.update_of_ne hq, Function.update_of_ne hq]

/-- A node taken out that is not counted. -/
theorem Sized.lag (h : S.Sized A q c) (hs : S'.size = S.size)
    (hA : A'.lists = Function.update A.lists q' l) (hl : (A.lists q').length = l.length + 1) :
    S'.Sized A' q (c + if q' = q then 1 else 0) := by
  unfold Sized at *
  rw [hs, hA, h]
  by_cases hq : q = q'
  · subst hq
    rw [Function.update_self, if_pos rfl, hl]
    congr 1
    omega
  · rw [Function.update_of_ne hq, if_neg (Ne.symm hq), Nat.add_zero]

/-- What an operation does to the size of a queue and to its list. -/
theorem Refines.sized_step {op : QueueOp} (R : S.Refines A) (hx : S.exec op = some (S', r))
    (h : S.Sized A q c) : S'.Sized (A.step S.data op).1 q (c + A.taken q op) := by
  rcases op with ⟨node, q'⟩ | ⟨node, q', p⟩ | q' | ⟨q', d⟩ | ⟨q', node⟩
  · change S.push node q' = some (S', r) at hx
    by_cases h0 : node = 0 ∨ q' = 0
    · rw [KernelQueues.push, if_pos h0] at hx
      cases hx
      simpa only [QueueSpec.step, if_pos h0, QueueSpec.taken, Nat.add_zero] using h
    · simp only [QueueSpec.step, if_neg h0]
      exact h.grow (push_size h0 hx) rfl List.length_cons
  · change S.pushPrio node q' p = some (S', r) at hx
    by_cases h0 : node = 0 ∨ q' = 0
    · rw [KernelQueues.pushPrio, if_pos h0] at hx
      cases hx
      simpa only [QueueSpec.step, if_pos h0, QueueSpec.taken, Nat.add_zero] using h
    · simp only [QueueSpec.step, if_neg h0]
      exact h.grow (pushPrio_size h0 hx) rfl (QueueSpec.length_insertPrio _ _ _ _)
  · change S.pop q' = some (S', r) at hx
    by_cases h0 : q' = 0
    · rw [KernelQueues.pop, if_pos h0] at hx
      cases hx
      simpa only [QueueSpec.step, if_pos h0, QueueSpec.taken, Nat.add_zero] using h
    simp only [QueueSpec.step, if_neg h0]
    by_cases hh : S.head q' = 0
    · have hl : A.lists q' = [] := R.head_eq_zero.1 hh
      rw [KernelQueues.pop, if_neg h0, if_pos hh] at hx
      cases hx
      rw [QueueSpec.setList, hl, List.dropLast_nil, ← hl, Function.update_eq_self]
      exact h
    · have hl : 0 < (A.lists q').length :=
        List.length_pos_of_ne_nil fun hl => hh (R.head_eq_zero.2 hl)
      refine h.shrink (pop_size h0 hh hx) rfl ?_
      rw [List.length_dropLast, Nat.sub_add_cancel hl]
  · change S.find q' d = some (S', r) at hx
    obtain rfl : S' = S := by
      rw [KernelQueues.find] at hx
      split_ifs at hx
      · exact (congrArg Prod.fst (Option.some_inj.1 hx)).symm
      · obtain ⟨cursor, -, hx⟩ := Option.map_eq_some_iff.1 hx
        exact (congrArg Prod.fst hx).symm
    simp only [QueueSpec.step]
    split_ifs
    · exact h
    · split
      all_goals exact h
  · change S.remove q' node = some (S', r) at hx
    have hs := remove_size hx
    by_cases h0 : q' = 0 ∨ node = 0
    · have h1 : A.taken q (.remove q' node) = 0 := by
        refine if_neg ?_
        rintro ⟨rfl, hq, hm⟩
        rcases h0 with h0 | rfl
        · exact hq h0
        · exact (R.dll q').ne_zero hm
      rw [h1]
      simp only [QueueSpec.step, if_pos h0]
      exact (congrFun hs q).trans h
    simp only [QueueSpec.step, if_neg h0]
    by_cases hm : node ∈ A.lists q'
    · have h1 : A.taken q (.remove q' node) = if q' = q then 1 else 0 := by
        by_cases hq : q' = q
        · subst hq
          simp only [QueueSpec.taken, hm]
          simpa using fun h => h0 (.inl h)
        · simp only [QueueSpec.taken, hq, false_and, if_false]
      rw [if_pos hm, h1]
      refine h.lag hs rfl ?_
      rw [List.length_erase_of_mem hm, Nat.sub_add_cancel (List.length_pos_of_mem hm)]
    · have h1 : A.taken q (.remove q' node) = 0 := by
        refine if_neg ?_
        rintro ⟨rfl, -, h⟩
        exact hm h
      rw [if_neg hm, h1]
      exact (congrFun hs q).trans h

/-- The size counts what was removed over a run. -/
theorem Refines.sized_execAll : ∀ {ops : List QueueOp} {S S' : KernelQueues} {A : QueueSpec}
    {rs : List QueueRes} {c : ℕ}, S.Refines A → A.LegalRun S.alive S.data ops →
    S.execAll ops = some (S', rs) → S.Sized A q c →
    S'.alive = S.alive ∧ S'.Sized (A.runAll S.data ops).1 q (c + A.removals S.data q ops)
  | [], S, S', A, rs, c, R, _, hx, h => by
    cases hx
    exact ⟨rfl, h⟩
  | op :: ops, S, S', A, rs, c, R, hl, hx, h => by
    obtain ⟨S₁, h1, ha, hd, R₁⟩ := R.exec hl.1
    have hl₁ : (A.step S.data op).1.LegalRun S₁.alive S₁.data ops := by
      rw [ha, hd]
      exact hl.2
    rw [KernelQueues.execAll, h1] at hx
    change Option.map _ (S₁.execAll ops) = _ at hx
    obtain ⟨⟨S₂, rs'⟩, h2, h3⟩ := Option.map_eq_some_iff.1 hx
    obtain rfl : S₂ = S' := congrArg Prod.fst h3
    obtain ⟨h3, h4⟩ := Refines.sized_execAll R₁ hl₁ h2 (R.sized_step h1 h)
    rw [hd] at h4
    refine ⟨h3.trans ha, ?_⟩
    rwa [QueueSpec.removals, ← Nat.add_assoc]

/-- After every run from new queues, the size of a queue is the number of its nodes just when the
nodes that `kernel_queue_remove` took from it are a multiple of `2 ^ 32`. -/
theorem size_eq_length_iff (h0 : S.Unused) (hsize : ∀ q, S.size q = 0)
    (haddr : ∀ n ∈ S.alive, n < 2 ^ 32) (ops : List QueueOp)
    (h : QueueSpec.LegalRun S.alive S.data ⟨fun _ => [], S.priority⟩ ops) (q : ℕ) :
    ∃ S' rs l, S.execAll ops = some (S', rs) ∧ Dll S'.next S'.prev (S'.head q) l
      ∧ (S'.size q = l.length
        ↔ 2 ^ 32 ∣ QueueSpec.removals S.data q ⟨fun _ => [], S.priority⟩ ops) := by
  obtain ⟨S', hx, R⟩ := h0.refines.execAll h
  obtain ⟨ha, hs⟩ := h0.refines.sized_execAll h hx (q := q) (c := 0) (by simp [Sized, hsize])
  refine ⟨S', _, _, hx, R.dll q, ?_⟩
  have hlen := (R.dll q).length_lt (by decide : 0 < 2 ^ 32) fun n hn =>
    haddr n (ha ▸ R.alive q n hn)
  rw [hs]
  omega

/-- Two nodes pushed and one popped. -/
theorem size_eq_length_iff_pop : ∃ S rs l,
    unusedQueues.execAll [.push 1 1, .pushPrio 2 1 7, .pop 1] = some (S, rs)
      ∧ Dll S.next S.prev (S.head 1) l ∧ S.size 1 = l.length := by
  obtain ⟨S, rs, l, h1, h2, h3⟩ := size_eq_length_iff (S := unusedQueues)
    ⟨fun _ => rfl, fun _ => rfl, fun _ => rfl⟩ (fun _ => rfl) (by decide)
    [.push 1 1, .pushPrio 2 1 7, .pop 1] (by
      simp [QueueSpec.LegalRun, QueueSpec.Legal, QueueSpec.step, QueueSpec.setList, unusedQueues,
        Function.update_apply]) 1
  exact ⟨S, rs, l, h1, h2, h3.2 (by decide)⟩

/-- One node pushed and removed: the queue is empty and its size is 1. -/
theorem size_ne_length : unusedQueues.Unused ∧ (∀ q, unusedQueues.size q = 0)
    ∧ QueueSpec.LegalRun unusedQueues.alive unusedQueues.data ⟨fun _ => [], unusedQueues.priority⟩
      [.push 1 1, .remove 1 1]
    ∧ ∃ S rs, unusedQueues.execAll [.push 1 1, .remove 1 1] = some (S, rs)
      ∧ Dll S.next S.prev (S.head 1) [] ∧ S.size 1 ≠ [].length (α := ℕ) :=
  ⟨⟨fun _ => rfl, fun _ => rfl, fun _ => rfl⟩, fun _ => rfl, by
    simp [QueueSpec.LegalRun, QueueSpec.Legal, unusedQueues], _, _, rfl, .nil, by decide +kernel⟩

end KernelQueues

end RTLKIM

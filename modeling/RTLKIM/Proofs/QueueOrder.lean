import RTLKIM.Proofs.KernelQueue
import RTLKIM.Lib.Keyed

/-!
# The order of a priority queue

`kernel_queue_push_prio` puts a node before the first one whose priority is not greater, and the
other operations on such a queue only take nodes out. So from its head on a queue goes down in
priority, and among equals from the last pushed to the first: `kernel_queue_pop` takes the first
pushed of those with the least priority.
-/

namespace RTLKIM

namespace QueueSpec

variable {A : QueueSpec} {q n t : ℕ} {stamp stamp' : ℕ → ℕ} {alive : List ℕ} {data : ℕ → ℕ}

/-! ## Runs, from their end -/

theorem runAll_concat (op : QueueOp) : ∀ (ops : List QueueOp) (A : QueueSpec),
    (A.runAll data (ops ++ [op])).1 = ((A.runAll data ops).1.step data op).1
  | [], _ => rfl
  | _ :: ops, _ => runAll_concat op ops _

theorem legalRun_concat (op : QueueOp) : ∀ (ops : List QueueOp) (A : QueueSpec),
    A.LegalRun alive data (ops ++ [op])
      ↔ A.LegalRun alive data ops ∧ (A.runAll data ops).1.Legal alive op
  | [], A => by simp [LegalRun, runAll]
  | o :: ops, A => by
    simp only [List.cons_append, LegalRun, legalRun_concat op ops, runAll, and_assoc]

theorem lastPush_concat (ops : List QueueOp) (op : QueueOp) (n : ℕ) :
    lastPush (ops ++ [op]) n = if pushes n op then ops.length + 1 else lastPush ops n := by
  unfold lastPush
  rw [List.reverse_append, List.length_append, List.reverse_singleton, List.singleton_append,
    List.findIdx_cons]
  cases pushes n op
  · simp
  · simp

theorem lastPush_le (ops : List QueueOp) (n : ℕ) : lastPush ops n ≤ ops.length := Nat.sub_le _ _

/-! ## The order -/

/-- Node `a` is to be popped after node `b`. -/
def After (priority stamp : ℕ → ℕ) (a b : ℕ) : Prop :=
  priority b ≤ priority a ∧ (priority a = priority b → stamp b < stamp a)

/-- The nodes of queue `q` are in the order of their priorities, and equals in that of `stamp`. -/
def Ordered (A : QueueSpec) (stamp : ℕ → ℕ) (q : ℕ) : Prop :=
  (A.lists q).Pairwise (After A.priority stamp)

/-- A node behind all of greater priority, and before the equals that came earlier. -/
theorem pairwise_insertPrio {f f' : ℕ → ℕ} {node p : ℕ} {l : List ℕ}
    (h : l.Pairwise (After f stamp)) (hkeep : ∀ n ∈ l, f' n = f n ∧ stamp' n = stamp n)
    (hnode : f' node = p) (hlate : ∀ n ∈ l, stamp n < stamp' node) :
    (insertPrio f node p l).Pairwise (After f' stamp') := by
  have h' : l.Pairwise (After f' stamp') := by
    refine h.imp_of_mem fun {a b} ha hb hab => ?_
    simpa only [After, hkeep a ha, hkeep b hb] using hab
  refine pairwise_insert h' (fun a ha hpass => ?_) fun b hb => ⟨?_, fun _ => ?_⟩
  · have hlt : f' node < f' a := by
      rw [hnode, (hkeep a ha).1]
      exact of_decide_eq_true hpass
    exact ⟨hlt.le, fun h => absurd h hlt.ne'⟩
  · rw [hnode, (hkeep b (mem_of_mem_dropWhile hb)).1]
    exact le_of_mem_dropWhile (h.imp fun h => h.1) hb
  · rw [(hkeep b (mem_of_mem_dropWhile hb)).2]
    exact hlate b (mem_of_mem_dropWhile hb)

/-- Nodes taken out, and nothing else changed about those that stay. -/
theorem Ordered.mono {A' : QueueSpec} (h : A.Ordered stamp q)
    (hsub : (A'.lists q).Sublist (A.lists q))
    (hkeep : ∀ n ∈ A.lists q, A'.priority n = A.priority n ∧ stamp' n = stamp n) :
    A'.Ordered stamp' q := by
  refine (List.Pairwise.sublist hsub h).imp_of_mem fun {a b} ha hb hab => ?_
  simpa only [After, hkeep a (hsub.subset ha), hkeep b (hsub.subset hb)] using hab

theorem setList_self (A : QueueSpec) (q : ℕ) (l : List ℕ) : (A.setList q l).lists q = l :=
  Function.update_self ..

theorem setList_of_ne {q' : ℕ} (h : q ≠ q') (l : List ℕ) :
    (A.setList q' l).lists q = A.lists q :=
  Function.update_of_ne h _ _

theorem setList_sublist {l : List ℕ} {q' : ℕ} (hl : q = q' → l.Sublist (A.lists q')) :
    ((A.setList q' l).lists q).Sublist (A.lists q) := by
  by_cases h : q = q'
  · subst h
    rw [setList_self]
    exact hl rfl
  · rw [setList_of_ne h]

/-- A legal call pushes no node of a queue. -/
theorem Legal.pushes_eq_false {op : QueueOp} (h : A.Legal alive op) (h0 : 0 ∉ A.lists q)
    (hn : n ∈ A.lists q) : pushes n op = false := by
  have hnode : ∀ {node q'}, (node = 0 ∨ q' = 0 ∨ node ∈ alive ∧ ∀ q', node ∉ A.lists q') →
      (node = n && q' != 0) = false := by
    rintro node q' (rfl | rfl | ⟨-, hnot⟩)
    · have : 0 ≠ n := fun h => h0 (h ▸ hn)
      simp [this]
    · simp
    · have : node ≠ n := fun h => hnot q (h ▸ hn)
      simp [this]
  cases op with
  | push node q' => exact hnode h
  | pushPrio node q' p => exact hnode h
  | pop q' => rfl
  | find q' d => rfl
  | remove q' node => rfl

/-- An operation on queues of which `q` is filled by priority keeps it in order; `t` is when. -/
theorem Ordered.step {op : QueueOp} (h : A.Ordered stamp q) (hlegal : A.Legal alive op)
    (hprio : ∀ node, op ≠ .push node q) (h0 : 0 ∉ A.lists q) (ht : ∀ n ∈ A.lists q, stamp n < t)
    (hstamp : ∀ n, stamp' n = if pushes n op then t else stamp n) :
    (A.step data op).1.Ordered stamp' q := by
  have hsame : ∀ n ∈ A.lists q, stamp' n = stamp n := fun n hn => by
    rw [hstamp, hlegal.pushes_eq_false h0 hn, if_neg Bool.false_ne_true]
  have hkeep : ∀ n ∈ A.lists q, A.priority n = A.priority n ∧ stamp' n = stamp n := fun n hn =>
    ⟨rfl, hsame n hn⟩
  have hidle : A.Ordered stamp' q := h.mono (.refl _) hkeep
  cases op with
  | push node q' =>
    have hq : q ≠ q' := by
      rintro rfl
      exact hprio node rfl
    simp only [QueueSpec.step]
    split_ifs
    · exact hidle
    · exact h.mono (setList_sublist fun h => absurd h hq) hkeep
  | pushPrio node q' p =>
    simp only [QueueSpec.step]
    split_ifs with hnull
    · exact hidle
    rw [not_or] at hnull
    have hnot : ∀ q', node ∉ A.lists q' :=
      ((hlegal.resolve_left hnull.1).resolve_left hnull.2).2
    have hprio' : ∀ n ∈ A.lists q, Function.update A.priority node p n = A.priority n :=
      fun n hn => Function.update_of_ne (fun h : n = node => hnot q (h ▸ hn)) _ _
    by_cases hq : q = q'
    · subst hq
      have hpush : stamp' node = t := by
        rw [hstamp]
        simp [pushes, hnull.2]
      have hins := pairwise_insertPrio h (fun n hn => ⟨hprio' n hn, hsame n hn⟩)
        (Function.update_self node p A.priority) (hpush ▸ ht)
      rwa [← setList_self A q (insertPrio A.priority node p (A.lists q))] at hins
    · exact h.mono (setList_sublist fun h => absurd h hq) fun n hn => ⟨hprio' n hn, hsame n hn⟩
  | pop q' =>
    simp only [QueueSpec.step]
    split_ifs
    · exact hidle
    · exact h.mono (setList_sublist fun _ => List.dropLast_sublist _) hkeep
  | find q' d =>
    simp only [QueueSpec.step]
    split_ifs
    · exact hidle
    · split
      all_goals exact hidle
  | remove q' node =>
    simp only [QueueSpec.step]
    split_ifs
    · exact hidle
    · exact h.mono (setList_sublist fun _ => List.erase_sublist) hkeep
    · exact hidle

/-- The last node comes before the others. -/
theorem after_lastD {f : ℕ → ℕ} {l : List ℕ} (h : l.Pairwise (After f stamp)) (hn : n ∈ l) :
    n = lastD l ∨ After f stamp n (lastD l) := by
  rcases List.eq_nil_or_concat l with rfl | ⟨u, b, rfl⟩
  · cases hn
  · rw [List.concat_eq_append] at *
    rw [lastD_concat]
    rcases List.mem_append.1 hn with hn | hn
    · exact .inr ((List.pairwise_append.1 h).2.2 n hn b (List.mem_singleton_self b))
    · exact .inl (List.mem_singleton.1 hn)

end QueueSpec

namespace KernelQueues

variable {S : KernelQueues} {q : ℕ}

open QueueSpec

/-- In every run from new queues a queue without a plain push stays in order. -/
theorem Unused.ordered (h0 : S.Unused) (ops : List QueueOp) :
    LegalRun S.alive S.data ⟨fun _ => [], S.priority⟩ ops → (∀ node, .push node q ∉ ops) →
    (runAll S.data ⟨fun _ => [], S.priority⟩ ops).1.Ordered (lastPush ops) q := by
  induction ops using List.reverseRecOn with
  | nil => exact fun _ _ => .nil
  | append_singleton ops op ih =>
    intro hlegal hprio
    rw [legalRun_concat] at hlegal
    have hops := ih hlegal.1 fun node h => hprio node (List.mem_append_left _ h)
    obtain ⟨S', -, R⟩ := h0.refines.execAll hlegal.1
    rw [runAll_concat]
    refine hops.step hlegal.2 (fun node h => hprio node (h ▸ by simp)) (R.dll q).ne_zero
      (fun n _ => Nat.lt_succ_of_le (lastPush_le ops n)) (lastPush_concat ops op)

/-- In every run from new queues a queue that only `kernel_queue_push_prio` fills holds the nodes
pushed and not yet taken out, of the priorities they were pushed with, and is from its head to its
tail of falling priority; a pop then returns a node of the least priority in it, and the first
pushed of those. -/
theorem prio_queue_order (h0 : S.Unused) (hq : q ≠ 0) (ops : List QueueOp)
    (h : LegalRun S.alive S.data ⟨fun _ => [], S.priority⟩ ops)
    (hprio : ∀ node, .push node q ∉ ops) :
    ∃ S' A rs, S.execAll ops = some (S', rs) ∧ runAll S.data ⟨fun _ => [], S.priority⟩ ops = (A, rs)
      ∧ S'.priority = A.priority ∧ Dll S'.next S'.prev (S'.head q) (A.lists q)
      ∧ (A.lists q).Pairwise (fun a b => A.priority b ≤ A.priority a)
      ∧ (∃ S'' node, S'.pop q = some (S'', .node node .noErr)
        ∧ (A.lists q = [] ∧ node = 0 ∨ node ∈ A.lists q)
        ∧ ∀ n ∈ A.lists q, A.priority node ≤ A.priority n
          ∧ (n ≠ node → A.priority n = A.priority node → lastPush ops node < lastPush ops n)) := by
  obtain ⟨S', hx, R⟩ := h0.refines.execAll h
  have hord := h0.ordered ops h hprio
  obtain ⟨S'', hpop, -⟩ := R.pop (q := q)
  simp only [QueueSpec.step, if_neg hq] at hpop
  refine ⟨S', _, _, hx, rfl, R.priority, R.dll q, hord.imp fun h => h.1, S'', _, hpop, ?_,
    fun n hn => ?_⟩
  · rcases List.eq_nil_or_concat ((runAll S.data ⟨fun _ => [], S.priority⟩ ops).1.lists q) with
      hl | ⟨u, b, hl⟩
    · exact .inl ⟨hl, by rw [hl, lastD_nil]⟩
    · rw [List.concat_eq_append] at hl
      rw [hl, lastD_concat]
      exact .inr (by simp)
  · rcases after_lastD hord hn with rfl | hlast
    · exact ⟨le_rfl, fun h => absurd rfl h⟩
    · exact ⟨hlast.1, fun _ => hlast.2⟩

/-- Two nodes of priority 5 and one of priority 7, the first pushed again after a pop: the other
of priority 5 is next. -/
theorem prio_queue_order_again : ∃ S' rs, unusedQueues.execAll [.pushPrio 1 1 5, .pushPrio 2 1 7,
      .pushPrio 3 1 5, .pop 1, .pushPrio 1 1 5] = some (S', rs)
      ∧ Dll S'.next S'.prev (S'.head 1) [2, 1, 3]
      ∧ S'.priority 2 = 7 ∧ S'.priority 1 = 5 ∧ S'.priority 3 = 5
      ∧ ∃ S'', S'.pop 1 = some (S'', .node 3 .noErr) := by
  have hrun : (runAll unusedQueues.data ⟨fun _ => [], unusedQueues.priority⟩ [.pushPrio 1 1 5,
      .pushPrio 2 1 7, .pushPrio 3 1 5, .pop 1, .pushPrio 1 1 5]).1.lists 1 = [2, 1, 3] := by
    simp [runAll, step, setList, insertPrio, unusedQueues, Function.update_apply]
  obtain ⟨S', A, rs, h1, h2, h3, h4, -, S'', node, h5, hmem, hfirst⟩ :=
    prio_queue_order (S := unusedQueues) (q := 1) ⟨fun _ => rfl, fun _ => rfl, fun _ => rfl⟩
      (by decide) [.pushPrio 1 1 5, .pushPrio 2 1 7, .pushPrio 3 1 5, .pop 1, .pushPrio 1 1 5] (by
      simp [LegalRun, Legal, step, setList, insertPrio, unusedQueues, Function.update_apply])
      (by simp)
  obtain rfl : _ = A := congrArg Prod.fst h2
  rw [hrun] at h4 hmem hfirst
  have hp : ∀ n ∈ [1, 2, 3], S'.priority n = if n = 2 then 7 else 5 := by
    rw [h3]
    simp [runAll, step, setList, insertPrio, unusedQueues, Function.update_apply]
  rw [← h3] at hfirst
  refine ⟨S', rs, h1, h4, hp 2 (by simp), hp 1 (by simp), hp 3 (by simp), S'', ?_⟩
  obtain rfl : node = 3 := by
    rcases hmem with ⟨hnil, -⟩ | hmem
    · cases hnil
    · simp only [List.mem_cons, List.not_mem_nil, or_false] at hmem
      rcases hmem with rfl | rfl | rfl
      · exact absurd (hfirst 3 (by simp)).1 (by simp [hp])
      · exact absurd ((hfirst 3 (by simp)).2 (by decide) (by simp [hp])) (by decide)
      · rfl
  exact h5

end KernelQueues

end RTLKIM

import RTLKIM.SchedTables
import RTLKIM.Proofs.SchedSelect
import RTLKIM.Lib.Keyed
import Mathlib.Data.List.Nodup

/-!
# The loop that wakes up sleepers

The loop takes nodes from the tail of the sleeping table while their time has come, and puts the
first other one back. So it wakes all that are due just when none of them is behind one that is not;
the table is in the order of 32 bits of the times, and the comparison is on all 64.
-/

namespace RTLKIM

namespace Sched

variable {s s' : Sched} {act : ℕ → Option ℕ} {t c now n : ℕ}

theorem setState_thread (s : Sched) (n : ℕ) (st : ThreadState) (t : ℕ) : (s.setState n st).thread t
    = { s.thread t with state := if t = n then st else (s.thread t).state } := by
  by_cases ht : t = n
  · subst ht
    rw [if_pos rfl]
    exact Function.update_self _ _ _
  · rw [if_neg ht]
    exact Function.update_of_ne ht _ _

theorem setState_wakeupTime (s : Sched) (n : ℕ) (st : ThreadState) (t : ℕ) :
    ((s.setState n st).thread t).wakeupTime = (s.thread t).wakeupTime := by
  rw [setState_thread]

/-! ## What the loop does -/

/-- The sleepers `w` are ready, each before those that were in its table, and `u` are asleep. -/
structure Woke (s : Sched) (c : ℕ) (u w : List ℕ) (s' : Sched) : Prop where
  active : ∀ i, s'.table (.active c i)
    = w.filter (fun t => (s.thread t).priority = i) ++ s.table (.active c i)
  sleeping : (s'.table (.sleeping c)).Perm u
  other : ∀ q, (∀ i, q ≠ .active c i) → q ≠ .sleeping c → s'.table q = s.table q
  thread : ∀ t, s'.thread t
    = { s.thread t with state := if t ∈ w then .ready else (s.thread t).state }
  data : ∀ t, (s'.node t).data = (s.node t).data
  activeThread : s'.activeThread = s.activeThread
  pc : s'.pc = s.pc

theorem Woke.refl (s : Sched) (c : ℕ) : Woke s c (s.table (.sleeping c)) [] s :=
  ⟨fun _ => rfl, .refl _, fun _ _ _ => rfl, fun _ => rfl, fun _ => rfl, rfl, rfl⟩

/-- One sleeper woken up, and then `w`. -/
theorem Woke.cons {u w : List ℕ} (h : Woke (((s.popped (.sleeping c)).setState n .ready).push
    (.active c (s.thread n).priority) n) c u w s') : Woke s c u (w ++ [n]) s' := by
  set s₁ := ((s.popped (.sleeping c)).setState n .ready).push (.active c (s.thread n).priority) n
    with hs₁
  have hth : ∀ t, s₁.thread t
      = { s.thread t with state := if t = n then .ready else (s.thread t).state } :=
    setState_thread _ n .ready
  refine ⟨fun i => ?_, h.sleeping, fun q hq hq' => ?_, fun t => ?_, h.data, h.activeThread, h.pc⟩
  · rw [h.active i]
    simp only [hth, List.filter_append, List.append_assoc]
    congr 1
    by_cases hi : (s.thread n).priority = i
    · subst hi
      rw [List.filter_singleton, decide_eq_true rfl]
      exact Function.update_self _ _ _
    · rw [List.filter_singleton, decide_eq_false hi]
      have hq : Table.active c i ≠ .active c (s.thread n).priority := by simpa using Ne.symm hi
      have hpop : (s.popped (.sleeping c)).table (.active c i) = s.table (.active c i) :=
        popped_table_of_ne (by simp)
      exact (push_table_of_ne hq).trans hpop
  · rw [h.other q hq hq', hs₁, push_table_of_ne (hq _)]
    exact popped_table_of_ne hq'
  · rw [h.thread t, hth t]
    by_cases ht : t = n
    · subst ht
      simp
    · simp [ht]

/-- The node taken last put back. -/
theorem Woke.put_back (hn : (s.table (.sleeping c)).getLast? = some n) (k : ℕ) :
    Woke s c (s.table (.sleeping c)) [] ((s.popped (.sleeping c)).pushPrio (.sleeping c) n k) := by
  refine ⟨fun i => ?_, ?_, fun q _ hq => ?_, fun _ => rfl, fun t => ?_, rfl, rfl⟩
  · exact (pushPrio_table_of_ne (by simp)).trans (popped_table_of_ne (by simp))
  · refine List.Perm.trans ?_ (perm_cons_dropLast hn).symm
    have htab : ((s.popped (.sleeping c)).pushPrio (.sleeping c) n k).table (.sleeping c) = _ :=
      Function.update_self _ _ _
    rw [htab]
    exact (perm_pushPrio _ _ _).trans (popped_table_self s _ ▸ .refl _)
  · exact (pushPrio_table_of_ne hq).trans (popped_table_of_ne hq)
  · exact (Same.setNode_priority (s := s.popped (.sleeping c)) (x := t) (t := n) k).node

theorem wake_woke : ∀ (k : ℕ) {s : Sched}, (s.table (.sleeping c)).length ≤ k →
    (∀ t ∈ s.table (.sleeping c), (s.node t).data = some t) →
    Woke s c (s.kept c now) (s.woken c now) (wake c now k s)
  | 0, s, hk, _ => by
    have hl : s.table (.sleeping c) = [] := List.length_eq_zero_iff.1 (Nat.le_zero.1 hk)
    have h := Woke.refl s c
    rw [hl] at h
    rw [kept, woken, hl, List.rdropWhile_nil, List.rtakeWhile_nil]
    exact h
  | k + 1, s, hk, hdata => by
    rw [wake]
    rcases List.eq_nil_or_concat (s.table (.sleeping c)) with hl | ⟨l, n, hl⟩
    · have h := Woke.refl s c
      rw [hl] at h
      rw [kept, woken, hl, List.rdropWhile_nil, List.rtakeWhile_nil]
      exact h
    rw [List.concat_eq_append] at hl
    have hlast : (s.table (.sleeping c)).getLast? = some n := by simp [hl]
    have hn : (s.node n).data = some n := hdata n (by simp [hl])
    rw [hlast]
    simp only [hn]
    by_cases hdue : (s.thread n).wakeupTime < now
    · rw [if_pos hdue]
      set s₁ := ((s.popped (.sleeping c)).setState n .ready).push
        (.active c (s.thread n).priority) n with hs₁
      have htab : s₁.table (.sleeping c) = l := by
        refine (push_table_of_ne (by simp)).trans ?_
        refine (popped_table_self s _).trans ?_
        rw [hl, List.dropLast_concat]
      have htime : ∀ t, (s₁.thread t).wakeupTime = (s.thread t).wakeupTime :=
        setState_wakeupTime (s.popped (.sleeping c)) n .ready
      have h := wake_woke k (s := s₁) (by rw [htab]; rw [hl] at hk; simpa using hk)
        fun t ht => hdata t (by rw [htab] at ht; simp [hl, ht])
      have hkept : s₁.kept c now = s.kept c now := by
        simp only [kept, htab, hl, htime]
        rw [List.rdropWhile_concat_pos _ _ n (decide_eq_true hdue)]
      have hwoken : s.woken c now = s₁.woken c now ++ [n] := by
        simp only [woken, htab, hl, htime]
        rw [List.rtakeWhile_concat_pos _ _ n (decide_eq_true hdue)]
      rw [hkept] at h
      rw [hwoken]
      exact h.cons
    · rw [if_neg hdue]
      have hkept : s.kept c now = s.table (.sleeping c) := by
        simp only [kept, hl]
        rw [List.rdropWhile_concat_neg _ _ n (by simpa using hdue)]
      have hwoken : s.woken c now = [] := by
        simp only [woken, hl]
        rw [List.rtakeWhile_concat_neg _ _ n (by simpa using hdue)]
      rw [hkept, hwoken]
      exact .put_back hlast _

/-- More rounds than there are nodes change nothing. -/
theorem wake_succ : ∀ (k : ℕ) {s : Sched}, (s.table (.sleeping c)).length ≤ k →
    wake c now (k + 1) s = wake c now k s
  | 0, s, hk => by
    have hl : s.table (.sleeping c) = [] := List.length_eq_zero_iff.1 (Nat.le_zero.1 hk)
    rw [wake, wake, hl]
    rfl
  | k + 1, s, hk => by
    rw [wake]
    conv_rhs => rw [wake]
    rcases hn : (s.table (.sleeping c)).getLast? with _ | n
    · rfl
    have hpop : ((s.popped (.sleeping c)).table (.sleeping c)).length ≤ k := by
      rw [popped_table_self, List.length_dropLast]
      omega
    dsimp only
    rcases (s.node n).data with _ | t
    · exact wake_succ k hpop
    · dsimp only
      split_ifs
      · refine wake_succ k (hpop.trans' (le_of_eq (congrArg List.length ?_)))
        exact push_table_of_ne (by simp)
      · rfl

theorem wake_eq_of_le {k : ℕ} (hk : (s.table (.sleeping c)).length ≤ k) :
    wake c now k s = wake c now (s.table (.sleeping c)).length s := by
  induction k, hk using Nat.le_induction with
  | base => rfl
  | succ k hk ih => rw [wake_succ k hk, ih]

/-! ## When it wakes all -/

theorem mem_table_iff : t ∈ s.table (.sleeping c) ↔ t ∈ s.kept c now ∨ t ∈ s.woken c now := by
  rw [← List.mem_append, kept, woken, List.rdropWhile_append_rtakeWhile]

theorem due_of_mem_woken (h : t ∈ s.woken c now) : (s.thread t).wakeupTime < now :=
  of_decide_eq_true (List.mem_rtakeWhile_imp (p := fun t => decide ((s.thread t).wakeupTime < now)) h)

/-- The sleepers kept come before the others in the table. -/
theorem kept_before (hnd : (s.table (.sleeping c)).Nodup) {x y : ℕ} (hy : y ∈ s.kept c now)
    (hx : x ∈ s.woken c now) :
    (s.table (.sleeping c)).idxOf y < (s.table (.sleeping c)).idxOf x := by
  have happ : s.kept c now ++ s.woken c now = s.table (.sleeping c) :=
    List.rdropWhile_append_rtakeWhile
  rw [← happ] at hnd ⊢
  have hnot : x ∉ s.kept c now := fun h => List.disjoint_of_nodup_append hnd h hx
  rw [List.idxOf_append_of_mem hy, List.idxOf_append_of_notMem hnot]
  exact (List.idxOf_lt_length_iff.2 hy).trans_le (Nat.le_add_right _ _)

/-- The loop wakes all when it stops at none that is due. -/
theorem Woke.wakesAll_iff (h : Woke s c (s.kept c now) (s.woken c now) s') :
    s.WakesAll c now s' ↔ ∀ x ∈ s.kept c now, now ≤ (s.thread x).wakeupTime := by
  constructor
  · exact fun hall x hx => ((hall.left x).1 (h.sleeping.mem_iff.2 hx)).2
  · intro hnot
    refine ⟨fun t => ?_, fun t ht hdue => ?_⟩
    · have hmem : t ∈ s.table (.sleeping c) ↔ t ∈ s.kept c now ∨ t ∈ s.woken c now := mem_table_iff
      rw [h.sleeping.mem_iff, hmem]
      refine ⟨fun ht => ⟨.inl ht, hnot t ht⟩, fun ht => ht.1.resolve_right fun hw => ?_⟩
      exact absurd (due_of_mem_woken hw) (not_lt.2 ht.2)
    · have hw : t ∈ s.woken c now :=
        (mem_table_iff.1 ht).resolve_left fun hk => absurd hdue (not_lt.2 (hnot t hk))
      refine ⟨by rw [h.thread t, if_pos hw], ?_⟩
      rw [h.active]
      exact List.mem_append_left _ (List.mem_filter.2 ⟨hw, decide_eq_true rfl⟩)

/-- In a table in order, a sleeper that is due is woken up just when none that is not is in the way.
-/
theorem Asleep.mem_woken_iff (h : s.Asleep c) (ht : t ∈ s.table (.sleeping c))
    (hdue : (s.thread t).wakeupTime < now) : t ∈ s.woken c now ↔ s.Clear c now t := by
  have happ : s.table (.sleeping c) = s.kept c now ++ s.woken c now :=
    List.rdropWhile_append_rtakeWhile.symm
  have hsorted := h.sorted.imp_of_mem fun {a b} ha hb hab => by
    rwa [h.key a ha, h.key b hb] at hab
  constructor
  · intro htw y hy hlate
    have hyk : y ∈ s.kept c now :=
      (mem_table_iff.1 hy).resolve_right fun hw => absurd (due_of_mem_woken hw) (not_lt.2 hlate)
    rw [happ] at hsorted
    have hle := (List.pairwise_append.1 hsorted).2.2 y hyk t htw
    exact hle.lt_or_eq.imp_right fun heq => ⟨heq, kept_before h.nodup hyk htw⟩
  · intro hclear
    refine (mem_table_iff.1 ht).resolve_left fun htk => ?_
    -- the sleeper that the loop stops at
    have hne : s.kept c now ≠ [] := List.ne_nil_of_mem htk
    set y := (s.kept c now).getLast hne with hy
    have hlate : now ≤ (s.thread y).wakeupTime := by
      have hstop := List.rdropWhile_last_not (fun t => decide ((s.thread t).wakeupTime < now))
        (s.table (.sleeping c)) hne
      exact not_lt.1 fun hlt => hstop (decide_eq_true hlt)
    have hyt : y ≠ t := by
      rintro heq
      rw [heq] at hlate
      exact absurd hdue (not_lt.2 hlate)
    have hsplit : (s.kept c now).dropLast ++ [y] = s.kept c now := List.dropLast_append_getLast hne
    have htv : t ∈ (s.kept c now).dropLast := by
      rw [← hsplit, List.mem_append, List.mem_singleton] at htk
      exact htk.resolve_right (Ne.symm hyt)
    have hnd := h.nodup
    unfold Clear at hclear
    rw [happ] at hsorted hnd hclear
    rw [← hsplit] at hsorted hnd hclear
    have hle := (List.pairwise_append.1 (List.pairwise_append.1 hsorted).1).2.2 t htv y
      (List.mem_singleton_self y)
    have hidx : List.idxOf t ((s.kept c now).dropLast ++ [y] ++ s.woken c now)
        < List.idxOf y ((s.kept c now).dropLast ++ [y] ++ s.woken c now) := by
      have hynot : y ∉ (s.kept c now).dropLast := fun hmem =>
        List.disjoint_of_nodup_append (List.nodup_append.1 hnd).1 hmem (List.mem_singleton_self y)
      rw [List.append_assoc, List.idxOf_append_of_mem htv, List.idxOf_append_of_notMem hynot]
      exact (List.idxOf_lt_length_iff.2 htv).trans_le (Nat.le_add_right _ _)
    rcases hclear y (by simp) hlate with h1 | ⟨-, h2⟩
    · exact absurd h1 (not_lt.2 hle)
    · exact absurd h2 (not_lt.2 hidx.le)

theorem Asleep.kept_iff (h : s.Asleep c) : (∀ x ∈ s.kept c now, now ≤ (s.thread x).wakeupTime)
    ↔ ∀ x ∈ s.table (.sleeping c), (s.thread x).wakeupTime < now → s.Clear c now x := by
  constructor
  · intro hnot x hx hdue
    refine (h.mem_woken_iff hx hdue).1 ((mem_table_iff.1 hx).resolve_left fun hk => ?_)
    exact absurd hdue (not_lt.2 (hnot x hk))
  · intro hall x hxk
    by_contra hdue
    rw [not_le] at hdue
    have hx : x ∈ s.table (.sleeping c) := mem_table_iff.2 (.inl hxk)
    have hxw := (h.mem_woken_iff hx hdue).2 (hall x hx hdue)
    exact absurd (kept_before h.nodup hxk hxw) (lt_irrefl _)

/-- The loop ends, and it wakes all sleepers that are due just when none that is not is in the way of
one that is. -/
theorem wake_wakesAll_iff (h : s.Asleep c) (now : ℕ) :
    (∀ k, (s.table (.sleeping c)).length ≤ k →
      wake c now k s = wake c now (s.table (.sleeping c)).length s)
    ∧ (s.WakesAll c now (wake c now (s.table (.sleeping c)).length s)
      ↔ ∀ x ∈ s.table (.sleeping c), (s.thread x).wakeupTime < now → s.Clear c now x) :=
  ⟨fun _ hk => wake_eq_of_le hk, (wake_woke _ le_rfl h.node).wakesAll_iff.trans h.kept_iff⟩

/-- Two sleepers that are both due a second after the kernel has started. -/
theorem wake_wakesAll_first_second : ∃ s : Sched, Reach step anyStep (schedInit 1) s
    ∧ (s.requeue 0 4).table (.sleeping 0) = [3, 2]
    ∧ (s.requeue 0 4).WakesAll 0 1000 (wake 0 1000 2 (s.requeue 0 4)) := by
  have hrun : (runEvents (guarded step anyStep) (schedInit 1)
      [.timer 0 0, .call 0 0 (.create 0 0 6), .call 0 0 (.create 0 0 6), .call 0 0 (.create 0 0 6),
        .timer 0 0, .call 0 100 (.sleep 90), .stmt 0 100, .call 0 100 (.sleep 500),
        .stmt 0 100]).any (fun s => decide ((s.requeue 0 4).Asleep 0)
          && decide ((s.requeue 0 4).table (.sleeping 0) = [3, 2])
          && decide (∀ t ∈ (s.requeue 0 4).table (.sleeping 0),
            ((s.requeue 0 4).thread t).wakeupTime < 1000)) = true := by
    decide +kernel
  obtain ⟨s, hs, hc⟩ := (Option.any_eq_true _ _).1 hrun
  simp only [Bool.and_eq_true, decide_eq_true_eq] at hc
  obtain ⟨⟨h, htab⟩, hdue⟩ := hc
  refine ⟨s, .of_run hs, htab, ?_⟩
  have hall := (wake_wakesAll_iff h 1000).2.2 fun _ _ _ y hy hlate =>
    absurd (hdue y hy) (not_lt.2 hlate)
  rwa [htab] at hall

/-- A sleeper that is due stays behind one that sleeps past `2 ^ 32`. -/
theorem wake_not_wakesAll : ∃ s : Sched, Reach step anyStep (schedInit 1) s
    ∧ s.activeThread 0 = some 4 ∧ (s.requeue 0 4).Asleep 0
    ∧ ¬ (s.requeue 0 4).WakesAll 0 4294967300
      (wake 0 4294967300 ((s.requeue 0 4).table (.sleeping 0)).length (s.requeue 0 4)) := by
  have hrun : (runEvents (guarded step anyStep) (schedInit 1)
      [.timer 0 0, .call 0 0 (.create 0 0 6), .call 0 0 (.create 0 0 6), .call 0 0 (.create 0 0 6),
        .timer 0 0, .call 0 4294967200 (.sleep 90), .stmt 0 4294967200,
        .call 0 4294967200 (.sleep 1000), .stmt 0 4294967200]).any (fun s =>
          decide (s.activeThread 0 = some 4) && decide ((s.requeue 0 4).Asleep 0)
          && decide ((s.requeue 0 4).table (.sleeping 0) = [2, 3])
          && decide (((s.requeue 0 4).thread 2).wakeupTime < 4294967300)
          && decide (2 ∈ (wake 0 4294967300 2 (s.requeue 0 4)).table (.sleeping 0))) = true := by
    decide +kernel
  obtain ⟨s, hs, hc⟩ := (Option.any_eq_true _ _).1 hrun
  simp only [Bool.and_eq_true, decide_eq_true_eq] at hc
  obtain ⟨⟨⟨⟨hact, h⟩, htab⟩, hdue⟩, hleft⟩ := hc
  refine ⟨s, .of_run hs, hact, h, fun hall => ?_⟩
  rw [htab] at hall
  exact absurd ((hall.left 2).1 hleft).2 (not_le.2 hdue)

end Sched

end RTLKIM

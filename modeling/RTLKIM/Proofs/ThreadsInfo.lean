import RTLKIM.ThreadsInfo
import RTLKIM.Lib.Run
import RTLKIM.Proofs.ThreadRefs

/-!
# The list of the threads, in every run

`thread_count` is the number of nodes of the table as long as no thread is reclaimed twice, and the walk
reads through `NULL` as soon as it fills the entry of the last thread.
-/

namespace RTLKIM

namespace Sched

variable {s s' : Sched} {c now t x : ℕ} {e : SchedEv}

/-! ## The count -/

/-- What the count and the table of the threads are read from. -/
def tally (s : Sched) : List ℕ × ℕ × ℕ × (ℕ → Bool) :=
  (s.globalTable, s.threadCount, s.created, s.freed)

/-- What a step does to them. -/
inductive TallyStep (s : Sched) (e : SchedEv) (s' : Sched) : Prop
  | same (h : s'.tally = s.tally)
  | born (h : s'.tally = (s.created :: s.globalTable, add32 s.threadCount 1, s.created + 1, s.freed))
  | clean (x : ℕ) (hx : s.Cleans x e) (h : s'.tally = (s.globalTable.erase x, sub32 s.threadCount 1,
      s.created, Function.update s.freed x true))

theorem tally_requeue : (s.requeue c t).tally = s.tally := by
  unfold Sched.requeue
  split_ifs <;> rfl

theorem tally_wake (now k : ℕ) (s : Sched) : (wake c now k s).tally = s.tally :=
  wake_rule (P := fun s' => s'.tally = s.tally) (fun _ _ h _ _ => h) (fun _ _ _ h _ _ => h)
    (fun _ _ _ h _ _ => h) k rfl

theorem elect_tally (h : s.elect c = .ok s') : s'.tally = s.tally := by
  unfold Sched.elect at h
  split at h
  · cases h
  · split at h
    · cases h
    · cases h
      rfl

theorem selectThread_tally (h : s.selectThread c now = .ok s') : s'.tally = s.tally := by
  unfold Sched.selectThread at h
  split at h
  · cases h
  · exact (elect_tally h).trans ((tally_wake now _ _).trans tally_requeue)

theorem createKernelThread_tally (k a m : ℕ) : TallyStep s e (s.createKernelThread t k a m) := by
  unfold Sched.createKernelThread
  split_ifs
  · exact .same rfl
  · exact .same rfl
  · exact .same rfl
  · exact .same rfl
  · exact .born rfl

theorem unlock_tally {type : WaitType} {object : ℕ} {d : Bool}
    (h : s.unlock c t type object d = .ok s') : s'.tally = s.tally := by
  unfold Sched.unlock at h
  split at h
  · cases h
    rfl
  · split at h
    · cases h
    · split_ifs at h
      all_goals
        cases h
        rfl

theorem perform_tally {k : SchedCall} (hr : s.perform c now t k = .ok s') : TallyStep s e s' := by
  cases k with
  | create k a m =>
    cases hr
    exact createKernelThread_tally k a m
  | unlock type object d => exact .same (unlock_tally hr)
  | setPriority k =>
    cases hr
    refine .same ?_
    unfold Sched.setPriority
    split_ifs <;> rfl
  | wait target =>
    rcases target with _ | x <;> cases hr <;> exact .same rfl
  | sleep | lock | setCause | schedule | exit =>
    cases hr
    exact .same rfl

/-- Either end of `sched_wait_thread`. -/
theorem cleanJoinedThread_tally {r : CallRet} (hc : s.activeThread c = some t)
    (hp : s.pc t = .waitClean x ∨ s.pc t = .waitResumed x)
    (hr : (s.cleanJoinedThread t x).map (fun s' => (s'.returns t r).goto t .run) = .ok s') :
    TallyStep s (.stmt c now) s' := by
  unfold Sched.cleanJoinedThread at hr
  split at hr
  · cases hr
  · cases hr
    exact .clean x ⟨t, hc, hp⟩ rfl

theorem exitChildren_tally (hr : s.exitChildren t = .ok s') : s'.tally = s.tally := by
  unfold Sched.exitChildren at hr
  split at hr
  · cases hr
  split at hr
  · cases hr
    rfl
  unfold adopt at hr
  simp only [] at hr
  split at hr
  · cases hr
  split at hr
  · cases hr
  cases hr
  show Sched.tally (if _ then _ else _) = _
  split_ifs <;> rfl

theorem exitWake_tally {j : Option ℕ} (hr : s.exitWake t j = .ok s') : s'.tally = s.tally := by
  rcases j with _ | j
  · cases hr
    rfl
  · simp only [Sched.exitWake] at hr
    split_ifs at hr
    · split at hr
      · cases hr
      · cases hr
        rfl
    · cases hr
      rfl

theorem stmt_tally (hc : s.activeThread c = some t) (hr : s.stmt c now t = .ok s') :
    TallyStep s (.stmt c now) s' := by
  unfold Sched.stmt at hr
  have hselect : ∀ p, (s.goto t p).selectThread c now = .ok s' → TallyStep s (.stmt c now) s' :=
    fun p h => .same (show s'.tally = (s.goto t p).tally from selectThread_tally h)
  cases hp : s.pc t with
  | run | waitMarkDead | waitJoining | waitRecord | exitZombie | exitTestInit | exitEnter | exitPush
  | exitSearch | exitLeave =>
    rw [hp] at hr
    cases hr
    exact .same rfl
  | sched =>
    rw [hp] at hr
    exact hselect _ hr
  | waitSched x =>
    rw [hp] at hr
    exact hselect _ hr
  | exitSched =>
    rw [hp] at hr
    exact hselect _ hr
  | waitDead x =>
    rw [hp] at hr
    cases hr
    refine .same ?_
    unfold Sched.waitDead
    split_ifs <;> rfl
  | waitZombie x =>
    rw [hp] at hr
    cases hr
    refine .same ?_
    unfold Sched.waitZombie
    split_ifs <;> rfl
  | waitClean x =>
    rw [hp] at hr
    exact cleanJoinedThread_tally hc (.inl hp) hr
  | waitResumed x =>
    rw [hp] at hr
    exact cleanJoinedThread_tally hc (.inr hp) hr
  | exitChildren =>
    rw [hp] at hr
    exact .same (exitChildren_tally hr)
  | exitDelete =>
    rw [hp] at hr
    refine .same ?_
    simp only [Sched.exitDelete] at hr
    split_ifs at hr
    cases hr
    rfl
  | exitWake j =>
    rw [hp] at hr
    exact .same (exitWake_tally hr)
  | exited =>
    rw [hp] at hr
    cases hr

theorem step_tally (hs : s.step e = some s') : TallyStep s e s' := by
  cases step_spec hs with
  | initAp c => exact .born rfl
  | call c now t k _ _ _ hr => exact perform_tally hr
  | stmt c now t _ hc _ hr => exact stmt_tally hc hr
  | timer c now t _ _ _ hr => exact .same (selectThread_tally hr)

/-! ## The table -/

/-- The table has the threads that are not reclaimed, and `thread_count` counts them. -/
structure Tallied (s : Sched) : Prop where
  nodup : s.globalTable.Nodup
  mem : ∀ x, x ∈ s.globalTable ↔ x < s.created ∧ s.freed x = false
  fresh : ∀ x, s.freed x = true → x < s.created
  count : s.threadCount = s.globalTable.length % 2 ^ 32

theorem Tallied.schedInit (n : ℕ) : (schedInit n).Tallied := by
  refine ⟨?_, fun x => ?_, fun x h => Bool.noConfusion h, ?_⟩
  · show [1, 0].Nodup
    decide
  · have hglobal : (Sched.schedInit n).globalTable = [1, 0] := rfl
    have hcreated : (Sched.schedInit n).created = 2 := rfl
    have hfreed : (Sched.schedInit n).freed x = false := rfl
    rw [hglobal, hcreated, hfreed]
    simp
    omega
  · show add32 (add32 0 1) 1 = 2
    decide +kernel

theorem tally_eq {l : List ℕ} {k m : ℕ} {d : ℕ → Bool} (h : s.tally = (l, k, m, d)) :
    s.globalTable = l ∧ s.threadCount = k ∧ s.created = m ∧ s.freed = d := by
  simpa [tally] using h

/-- A thread that is waited for exists. -/
def TargetsBorn (s : Sched) : Prop := ∀ t x, (s.pc t).target = some x → x < s.created

theorem TargetsBorn.update {p : Pc} (h : s.TargetsBorn) (hcreated : s.created ≤ s'.created)
    (hpc : s'.pc = Function.update s.pc t p) (hp : ∀ y, p.target = some y → y < s.created) :
    s'.TargetsBorn := by
  intro j y hy
  refine lt_of_lt_of_le ?_ hcreated
  rw [hpc] at hy
  by_cases hj : j = t
  · subst hj
    rw [Function.update_self] at hy
    exact hp y hy
  · rw [Function.update_of_ne hj] at hy
    exact h j y hy

theorem TargetsBorn.step (h : s.TargetsBorn) (hs : s.step e = some s') : s'.TargetsBorn := by
  have hrun : ∀ y, Pc.run.target = some y → y < s.created := fun y hy => nomatch hy
  cases step_refs hs with
  | same hv hpc =>
    have hcreated : s'.created = s.created := congrArg RefView.created hv
    exact fun t y hy => hcreated ▸ h t y (hpc ▸ hy)
  | goes t p hg hv hpc =>
    refine h.update (congrArg RefView.created hv).ge hpc fun y hy => ?_
    rcases hg.target y hy with hy | ⟨hlt, -⟩
    · exact h t y hy
    · exact hlt
  | spent he hv hpc =>
    have hcreated : s'.created = s.created := congrArg RefView.created hv
    exact fun t y hy => hcreated ▸ h t y (hpc ▸ hy)
  | idle c he hv hpc =>
    have hcreated : s'.created = s.created + 1 := congrArg RefView.created hv
    exact h.update (by omega) hpc hrun
  | create t he hv hpc =>
    have hcreated : s'.created = s.created + 1 := congrArg RefView.created hv
    exact h.update (by omega) hpc hrun
  | record t x hp hv hpc =>
    refine h.update (congrArg RefView.created hv).ge hpc fun y hy => h t y ?_
    rw [hp]
    exact hy
  | clean c now t x l he hc hp hl hv hpc => exact h.update (congrArg RefView.created hv).ge hpc hrun
  | push t hp hv hpc =>
    exact h.update (congrArg RefView.created hv).ge hpc fun y hy => nomatch hy
  | adopt t x l k data hp hl hx hk hd hv hpc =>
    have hcreated : s'.created = s.created := congrArg RefView.created hv
    exact fun t y hy => hcreated ▸ h t y (hpc ▸ hy)
  | delete t hp hv hpc =>
    exact h.update (congrArg RefView.created hv).ge hpc fun y hy => nomatch hy

theorem Cleans.target (hx : s.Cleans x e) : ∃ t, (s.pc t).target = some x := by
  cases e with
  | stmt c now =>
    obtain ⟨t, -, hp | hp⟩ := hx
    all_goals exact ⟨t, by rw [hp]; rfl⟩
  | _ => exact hx.elim

/-- A step that reclaims no thread a second time. -/
theorem Tallied.step (h : s.Tallied) (hb : s.TargetsBorn) (hok : s.CleansOnce e)
    (hs : s.step e = some s') : s'.Tallied := by
  cases step_tally hs with
  | same ht =>
    obtain ⟨h1, h2, h3, h4⟩ := tally_eq ht
    refine ⟨?_, ?_, ?_, ?_⟩
    · rw [h1]
      exact h.nodup
    · rw [h1, h3, h4]
      exact h.mem
    · rw [h3, h4]
      exact h.fresh
    · rw [h1, h2]
      exact h.count
  | born ht =>
    obtain ⟨h1, h2, h3, h4⟩ := tally_eq ht
    have hnew : s.created ∉ s.globalTable := fun hm => absurd ((h.mem _).1 hm).1 (lt_irrefl _)
    have hfresh : s.freed s.created = false :=
      Bool.eq_false_iff.2 fun hf => absurd (h.fresh _ hf) (lt_irrefl _)
    refine ⟨?_, fun x => ?_, fun x hf => ?_, ?_⟩
    · rw [h1]
      exact List.nodup_cons.2 ⟨hnew, h.nodup⟩
    · rw [h1, h3, h4, List.mem_cons, h.mem x]
      constructor
      · rintro (rfl | ⟨hlt, hf⟩)
        · exact ⟨by omega, hfresh⟩
        · exact ⟨by omega, hf⟩
      · rintro ⟨hlt, hf⟩
        by_cases hx : x = s.created
        · exact .inl hx
        · exact .inr ⟨by omega, hf⟩
    · rw [h4] at hf
      rw [h3]
      exact Nat.lt_succ_of_lt (h.fresh x hf)
    · rw [h1, h2, h.count, List.length_cons]
      unfold add32
      omega
  | clean x hx ht =>
    obtain ⟨h1, h2, h3, h4⟩ := tally_eq ht
    obtain ⟨t, htarget⟩ := Cleans.target hx
    have hmem : x ∈ s.globalTable := (h.mem x).2 ⟨hb t x htarget, hok x hx⟩
    refine ⟨?_, fun y => ?_, fun y hf => ?_, ?_⟩
    · rw [h1]
      exact h.nodup.erase x
    · rw [h1, h3, h4, h.nodup.mem_erase_iff, h.mem y]
      by_cases hy : y = x
      · subst hy
        simp
      · simp [hy]
    · rw [h4] at hf
      rw [h3]
      by_cases hy : y = x
      · subst hy
        exact hb t y htarget
      · rw [Function.update_of_ne hy] at hf
        exact h.fresh y hf
    · have hpos := List.length_pos_of_mem hmem
      rw [h1, h2, h.count, List.length_erase_of_mem hmem]
      unfold sub32
      omega

theorem reach_tallied {n : ℕ} (hr : Reach step CleansOnce (schedInit n) s) : s.Tallied := by
  have h : s.Tallied ∧ s.TargetsBorn := by
    have h0 : (schedInit n).TargetsBorn := by
      intro t x hx
      rw [schedInit_pc] at hx
      split_ifs at hx
      all_goals cases hx
    exact hr.invariant (P := fun s => s.Tallied ∧ s.TargetsBorn) ⟨.schedInit n, h0⟩
      fun s e s' h hok hs => ⟨h.1.step h.2 hok hs, h.2.step hs⟩
  exact h.1

/-! ## The walk -/

variable {label : ℕ → ThreadLabel} {uptime : ℕ → ℕ} {size : Int32}

/-- The walk stops before the last node. -/
theorem infoLoop_returns : ∀ (l : List ℕ) (i : ℕ) (filled : List ThreadInfo),
    size.toInt < i + l.length → s.infoLoop label uptime size i filled l = .returns .noErr size
      (filled ++ (l.take (size.toInt - i).toNat).mapIdx fun k => s.infoEntry label uptime (i + k))
  | [], i, filled, _ => by simp [infoLoop]
  | t :: rest, i, filled, h => by
    unfold infoLoop
    split_ifs with hi
    · rw [List.length_cons] at h
      rcases rest with _ | ⟨u, rest⟩
      · simp only [List.length_nil] at h
        omega
      · simp only []
        rw [infoLoop_returns (u :: rest) (i + 1) _ (by omega)]
        have hk : (size.toInt - i).toNat = (size.toInt - (i + 1 : ℕ)).toNat + 1 := by omega
        rw [hk, List.take_succ_cons, List.mapIdx_cons, List.append_assoc]
        simp only [Nat.add_zero, List.singleton_append, Nat.add_assoc, Nat.add_comm 1]
    · have hk : (size.toInt - i).toNat = 0 := by omega
      simp [hk]

/-- The walk fills the entry of the last node. -/
theorem infoLoop_nullDeref : ∀ (l : List ℕ) (i : ℕ) (filled : List ThreadInfo), l ≠ [] →
    i + l.length ≤ size.toInt → s.infoLoop label uptime size i filled l = .nullDeref
  | [], _, _, hl, _ => absurd rfl hl
  | t :: rest, i, filled, _, h => by
    unfold infoLoop
    rw [List.length_cons] at h
    rw [if_pos (by omega)]
    rcases rest with _ | ⟨u, rest⟩
    · rfl
    · exact infoLoop_nullDeref (u :: rest) (i + 1) _ (List.cons_ne_nil _ _) (by omega)

theorem getThreadsInfo_eq (h : s.globalTable ≠ []) : s.getThreadsInfo label uptime size
    = s.infoLoop label uptime (if Int32.ofNat s.threadCount < size then Int32.ofNat s.threadCount else size)
      0 [] s.globalTable := by
  unfold getThreadsInfo
  rcases hl : s.globalTable with _ | ⟨t, rest⟩
  · exact absurd hl h
  · rfl

/-- The walk goes wrong on the last node, and the comparison with the count past `INT32_MAX`. -/
theorem listed_iff (hcount : s.threadCount = s.globalTable.length % 2 ^ 32) (h0 : 0 ≤ size.toInt) :
    s.Listed label uptime size
      ↔ size.toInt < s.globalTable.length ∧ s.globalTable.length < 2 ^ 31 := by
  have hofNat : (Int32.ofNat s.threadCount).toInt = (s.threadCount : ℤ).bmod (2 ^ 32) :=
    Int32.toInt_ofNat
  have hlt : Int32.ofNat s.threadCount < size ↔ (Int32.ofNat s.threadCount).toInt < size.toInt :=
    Int32.lt_iff_toInt_lt
  constructor
  · rintro ⟨hn, size', hsize, hres⟩
    have hne : s.globalTable ≠ [] := by
      intro hnil
      simp [getThreadsInfo, hnil] at hres
    rw [getThreadsInfo_eq hne] at hres
    by_cases hmax : s.globalTable.length < 2 ^ 31
    · refine ⟨?_, hmax⟩
      rw [hn, Int.bmod_eq_of_le (by omega) (by omega)] at hofNat
      by_contra hsize
      have hall : (s.globalTable.length : ℤ)
          ≤ (if Int32.ofNat s.threadCount < size then Int32.ofNat s.threadCount else size).toInt := by
        split_ifs
        · rw [hn, hofNat]
        · omega
      rw [infoLoop_nullDeref _ 0 [] hne (by omega)] at hres
      cases hres
    · -- the count is negative for the comparison, and it is what is stored
      have hneg : (Int32.ofNat s.threadCount).toInt < 0 := by
        rw [hofNat, Int.bmod_def]
        omega
      rw [if_pos (hlt.2 (by omega)), infoLoop_returns _ _ _ (by omega)] at hres
      have hsame : Int32.ofNat s.threadCount = size' := (InfoRes.returns.inj hres).2.1
      rw [← hsame] at hsize
      omega
  · rintro ⟨hsize, hmax⟩
    have hn : s.threadCount = s.globalTable.length := by omega
    have hne : s.globalTable ≠ [] := by
      intro hnil
      rw [hnil, List.length_nil] at hsize
      omega
    have hge : ¬ Int32.ofNat s.threadCount < size := by
      rw [hlt, hofNat, hn, Int.bmod_eq_of_le (by omega) (by omega)]
      omega
    refine ⟨hn, size, by omega, ?_⟩
    rw [getThreadsInfo_eq hne, if_neg hge, infoLoop_returns _ _ _ (by simpa using hsize)]
    simp

/-- Over every run that reclaims no thread twice. -/
theorem threads_info_iff {n : ℕ} (hr : Reach step CleansOnce (schedInit n) s) (h0 : 0 ≤ size.toInt) :
    s.threadCount = s.globalTable.length % 2 ^ 32
      ∧ (s.Listed label uptime size
        ↔ size.toInt < s.globalTable.length ∧ s.globalTable.length < 2 ^ 31) :=
  ⟨(reach_tallied hr).count, listed_iff (reach_tallied hr).count h0⟩

/-- One entry of the idle thread and init. -/
theorem threads_info_start : (schedInit 1).Listed (fun _ => ⟨"", 0, 0⟩) (fun _ => 0) 1 :=
  (threads_info_iff (n := 1) .refl (by decide)).2.2 ⟨by decide, by decide⟩

/-- With room for all the threads there are, the walk reads through `NULL`. -/
theorem threads_info_not_listed : ¬ ∀ s, Reach step CleansOnce (schedInit 1) s → ∀ size : Int32,
    0 ≤ size.toInt → s.Listed (fun _ => ⟨"", 0, 0⟩) (fun _ => 0) size := by
  intro h
  obtain ⟨-, size', -, hres⟩ := h (schedInit 1) .refl 2 (by decide)
  have hnull : (schedInit 1).getThreadsInfo (fun _ => ⟨"", 0, 0⟩) (fun _ => 0) 2 = .nullDeref := by
    decide +kernel
  rw [hnull] at hres
  cases hres

end Sched

end RTLKIM

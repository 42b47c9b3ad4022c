import RTLKIM.Proofs.ThreadRefs

/-!
# The identifiers of threads

`create_idle` takes `last_given_tid` and then increments it; `sched_create_kernel_thread` increments
it and takes the result. The identifiers in the global table are at most the last given then, and
what is last given may be one of them, which is what an idle thread takes next.
-/

namespace RTLKIM

/-- The identifiers of the threads in the global table are distinct and none is past the last given.
-/
structure RefView.Numbered (v : RefView) : Prop where
  made : ∀ a ∈ v.global, a < v.created
  given : ∀ a ∈ v.global, v.tid a ≤ v.lastTid
  distinct : ∀ a ∈ v.global, ∀ b ∈ v.global, v.tid a = v.tid b → a = b

namespace RefView.Numbered

variable {v : RefView} {i : ℕ}

/-- A thread more, with an identifier none of the others has. -/
theorem born (h : v.Numbered) (p : Option ℕ) (hw : v.lastTid + 1 < 2 ^ 32) (hi : i ≤ v.lastTid + 1)
    (hnew : ∀ a ∈ v.global, v.tid a ≠ i) : (v.born i p).Numbered := by
  have hlast : (v.born i p).lastTid = v.lastTid + 1 := add32_of_lt hw
  have hself : (v.born i p).tid v.created = i := Function.update_self _ _ _
  have hold : ∀ a ∈ v.global, (v.born i p).tid a = v.tid a := fun a ha =>
    Function.update_of_ne (h.made a ha).ne _ _
  refine ⟨fun a ha => ?_, fun a ha => ?_, fun a ha b hb hab => ?_⟩
  · rcases List.mem_cons.1 ha with rfl | ha
    · exact Nat.lt_succ_self _
    · exact Nat.lt_succ_of_lt (h.made a ha)
  · rw [hlast]
    rcases List.mem_cons.1 ha with rfl | ha
    · rw [hself]
      exact hi
    · rw [hold a ha]
      exact Nat.le_succ_of_le (h.given a ha)
  · rcases List.mem_cons.1 ha with rfl | ha <;> rcases List.mem_cons.1 hb with rfl | hb
    · rfl
    · rw [hself, hold b hb] at hab
      exact absurd hab.symm (hnew b hb)
    · rw [hself, hold a ha] at hab
      exact absurd hab (hnew a ha)
    · rw [hold a ha, hold b hb] at hab
      exact h.distinct a ha b hb hab

/-- An identifier is given that no thread gets. -/
theorem spend (h : v.Numbered) (hw : v.lastTid + 1 < 2 ^ 32) :
    ({ v with lastTid := add32 v.lastTid 1 } : RefView).Numbered :=
  ⟨h.made, fun a ha => by rw [add32_of_lt hw]; exact Nat.le_succ_of_le (h.given a ha), h.distinct⟩

theorem clean (h : v.Numbered) (t x : ℕ) (l : List ℕ) : (v.clean t x l).Numbered where
  made a ha := h.made a (List.mem_of_mem_erase ha)
  given a ha := h.given a (List.mem_of_mem_erase ha)
  distinct a ha b hb := h.distinct a (List.mem_of_mem_erase ha) b (List.mem_of_mem_erase hb)

end RefView.Numbered

namespace Sched

variable {s s' : Sched} {e : SchedEv}

theorem Numbered.step (h : s.refs.Numbered) (hw : s.lastGivenTid + 1 < 2 ^ 32) (he : s.IdleIsNew e)
    (hs : s.step e = some s') :
    s'.refs.Numbered ∧ s'.lastGivenTid ≤ s.lastGivenTid + if e.creates then 1 else 0 := by
  have hkeep : ∀ {v}, s'.refs = v → v.lastTid = s.lastGivenTid →
      s'.lastGivenTid ≤ s.lastGivenTid + if e.creates then 1 else 0 := fun h1 h2 => by
    have : s'.lastGivenTid = s.lastGivenTid := (congrArg RefView.lastTid h1).trans h2
    omega
  have htake : ∀ {v}, s'.refs = v → v.lastTid = add32 s.lastGivenTid 1 → e.creates = true →
      s'.lastGivenTid ≤ s.lastGivenTid + if e.creates then 1 else 0 := fun h1 h2 h3 => by
    have : s'.lastGivenTid = add32 s.lastGivenTid 1 := (congrArg RefView.lastTid h1).trans h2
    rw [this, add32_of_lt hw, if_pos h3]
  cases step_refs hs with
  | same hv _ => exact ⟨by rwa [hv], hkeep hv rfl⟩
  | goes t p _ hv _ => exact ⟨by rwa [hv], hkeep hv rfl⟩
  | spent hc hv _ => exact ⟨by rw [hv]; exact h.spend hw, htake hv rfl hc⟩
  | idle c hc hv _ =>
    subst hc
    exact ⟨by rw [hv]; exact h.born none hw (Nat.le_succ _) he, htake hv rfl rfl⟩
  | create t hc hv _ =>
    refine ⟨?_, htake hv rfl hc⟩
    rw [hv, add32_of_lt hw]
    refine h.born (some t) hw le_rfl fun a ha hne => ?_
    have := h.given a ha
    rw [hne] at this
    exact absurd this (Nat.not_succ_le_self _)
  | record t x _ hv _ => exact ⟨by rw [hv]; exact ⟨h.made, h.given, h.distinct⟩, hkeep hv rfl⟩
  | clean c now t x l _ _ _ _ hv _ => exact ⟨by rw [hv]; exact h.clean t x l, hkeep hv rfl⟩
  | push t _ hv _ => exact ⟨by rw [hv]; exact ⟨h.made, h.given, h.distinct⟩, hkeep hv rfl⟩
  | adopt t x l k data _ _ _ _ _ hv _ =>
    exact ⟨by rw [hv]; exact ⟨h.made, h.given, h.distinct⟩, hkeep hv rfl⟩
  | delete t _ hv _ => exact ⟨by rw [hv]; exact ⟨h.made, h.given, h.distinct⟩, hkeep hv rfl⟩

/-- A run with fewer than `2 ^ 32` identifiers to give. -/
theorem Numbered.run : ∀ (es : List SchedEv) {s s' : Sched}, s.refs.Numbered →
    s.lastGivenTid + es.countP SchedEv.creates + 1 < 2 ^ 32 →
    runEvents (guarded Sched.step IdleIsNew) s es = some s' → s'.refs.Numbered
  | [], s, s', h, _, hr => by
    cases hr
    exact h
  | e :: es, s, s', h, hw, hr => by
    rw [runEvents, Option.bind_eq_some_iff] at hr
    obtain ⟨s₁, h1, h2⟩ := hr
    unfold guarded at h1
    split_ifs at h1 with hok
    rw [List.countP_cons] at hw
    obtain ⟨hn, hl⟩ := Numbered.step h (by omega) hok h1
    exact Numbered.run es hn (by omega) h2

theorem schedInit_lastGivenTid (n : ℕ) : (schedInit n).lastGivenTid = 2 := by
  change add32 (add32 0 1) 1 = 2
  decide +kernel

theorem schedInit_numbered (n : ℕ) : (schedInit n).refs.Numbered := by
  have hg : (schedInit n).refs.global = [1, 0] := rfl
  have hc : (schedInit n).refs.created = 2 := rfl
  have hl : (schedInit n).refs.lastTid = 2 := schedInit_lastGivenTid n
  have h0 : (schedInit n).refs.tid 0 = 0 := rfl
  have h1 : (schedInit n).refs.tid 1 = 2 := schedInit_lastGivenTid n
  refine ⟨fun a ha => ?_, fun a ha => ?_, fun a ha b hb hab => ?_⟩
  · rw [hg] at ha
    simp at ha
    omega
  · rw [hg] at ha
    simp at ha
    rcases ha with rfl | rfl <;> omega
  · rw [hg] at ha hb
    simp at ha hb
    rcases ha with rfl | rfl <;> rcases hb with rfl | rfl <;> omega

/-- In a run that brings a CPU up only when no thread of the global table has the identifier last
given, no two threads of the table ever have the same one. -/
theorem thread_ids_unique (n : ℕ) (es : List SchedEv) (s : Sched)
    (hn : es.countP SchedEv.creates + 2 < 2 ^ 31)
    (hr : runEvents (guarded step IdleIsNew) (schedInit n) es = some s) : s.TidsUnique := by
  have hl := schedInit_lastGivenTid n
  have h := Numbered.run es (schedInit_numbered n) (by omega) hr
  exact h.distinct

/-- A creation of init's that runs out of memory leaves an identifier to the idle thread of CPU 1.
-/
theorem thread_ids_unique_after_failure : ∃ s : Sched,
    runEvents (guarded step IdleIsNew) (schedInit 2)
      [.timer 0 0, .call 0 0 (.create 0 0 2), .initAp 1, .call 0 0 (.create 0 1 6)] = some s
    ∧ s.globalTable = [3, 2, 1, 0] ∧ s.TidsUnique := by
  have hrun : ((runEvents (guarded step IdleIsNew) (schedInit 2)
      [.timer 0 0, .call 0 0 (.create 0 0 2), .initAp 1, .call 0 0 (.create 0 1 6)]).map
        fun s => s.globalTable) = some [3, 2, 1, 0] := by decide +kernel
  obtain ⟨s, h, hg⟩ := Option.map_eq_some_iff.1 hrun
  exact ⟨s, h, hg, thread_ids_unique 2 _ s (by decide) h⟩

/-- CPU 1 comes up first thing: its idle thread has init's identifier. -/
theorem thread_ids_not_unique : ∃ s : Sched,
    runEvents step (schedInit 2) [.initAp 1] = some s ∧ ¬ s.TidsUnique := by
  have hrun : ((runEvents step (schedInit 2) [.initAp 1]).map
      fun s => (s.globalTable, (s.thread 1).tid, (s.thread 2).tid)) = some ([2, 1, 0], 2, 2) := by
    decide +kernel
  obtain ⟨s, h, hs⟩ := Option.map_eq_some_iff.1 hrun
  simp only [Prod.mk.injEq] at hs
  obtain ⟨hg, h1, h2⟩ := hs
  refine ⟨s, h, fun hu => ?_⟩
  have := hu 1 (by simp [hg]) 2 (by simp [hg]) (by rw [h1, h2])
  omega

end Sched

end RTLKIM

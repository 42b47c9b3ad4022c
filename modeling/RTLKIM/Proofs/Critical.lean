import RTLKIM.Critical

/-!
# Mutual exclusion of the critical sections

As long as only outermost sections are left, the lock is free or one CPU holds it, from the
test-and-set that let it in to the store of `0` to `value`; the others wait outside. While a CPU
holds the lock `nesting` counts its sections (`Phase`), so its `EXIT_CRITICAL` finds `0` there and
gives `current_tid` up before `value`. An inner `EXIT_CRITICAL` would store `0` to `value` with the
section not left, and let another CPU in.
-/

namespace RTLKIM

namespace Spinlock

variable {s s' : Spinlock} {c d : ℕ} {e : CritEv}

@[simp] theorem goto_pc_self (p : CritPc) : (s.goto c p).pc c = p := Function.update_self _ _ _

theorem goto_pc_of_ne (hd : d ≠ c) (p : CritPc) : (s.goto c p).pc d = s.pc d :=
  Function.update_of_ne hd _ _

@[simp] theorem goto_depth (p : CritPc) : (s.goto c p).depth = s.depth := rfl

/-- `d` neither holds the lock nor is past `__pause_spinlock`. -/
def Out (s : Spinlock) (d : ℕ) : Prop :=
  s.depth d = 0 ∧ (s.pc d = .idle ∨ s.pc d = .test ∨ s.pc d = .spin)

/-- The lock's fields while `c`, in `n` sections, holds it at a point of the macros. -/
def Phase (s : Spinlock) (c n : ℕ) : CritPc → Prop
  | .idle | .test => 0 < n ∧ s.currentTid = c ∧ s.nesting = n % 2 ^ 32
  | .spin => False
  | .own => s.currentTid = (if n = 0 then -1 else (c : ℤ)) ∧ s.nesting = n % 2 ^ 32
  | .incLoad => s.currentTid = c ∧ s.nesting = n % 2 ^ 32
  | .incStore v => s.currentTid = c ∧ v = n % 2 ^ 32
  | .decLoad => n = 0 ∧ s.currentTid = c ∧ s.nesting = 1
  | .decStore v => n = 0 ∧ s.currentTid = c ∧ v = 1
  | .testNesting | .clearTid => n = 0 ∧ s.currentTid = c ∧ s.nesting = 0
  | .clearValue => n = 0 ∧ s.currentTid = -1 ∧ s.nesting = 0

structure Free (s : Spinlock) : Prop where
  out : ∀ d, s.Out d
  tid : s.currentTid = -1
  nesting : s.nesting = 0

structure HeldBy (s : Spinlock) (c : ℕ) : Prop where
  out : ∀ d, d ≠ c → s.Out d
  value : s.value ≠ 0
  phase : s.Phase c (s.depth c) (s.pc c)

/-- The lock is free, or one CPU holds it. -/
def Inv (s : Spinlock) : Prop := s.Free ∨ ∃ c, s.HeldBy c

theorem Phase.tid {n : ℕ} : ∀ {p : CritPc}, s.Phase c n p → s.currentTid = c ∨ s.currentTid = -1
  | .idle, h | .test, h => .inl h.2.1
  | .own, h => by
    obtain ⟨h, -⟩ := h
    split_ifs at h
    · exact .inr h
    · exact .inl h
  | .incLoad, h | .incStore _, h => .inl h.1
  | .decLoad, h | .decStore _, h | .testNesting, h | .clearTid, h => .inl h.2.1
  | .clearValue, h => .inr h.2.1

theorem Out.goto (h : s.Out d) (hne : d ≠ c) (p : CritPc) : (s.goto c p).Out d := by
  unfold Out
  rw [goto_pc_of_ne hne]
  exact h

theorem Out.self (h : s.Out d) {p : CritPc} (hp : p = .idle ∨ p = .test ∨ p = .spin) :
    (s.goto d p).Out d := by
  refine ⟨h.1, ?_⟩
  rw [goto_pc_self]
  exact hp

/-- A CPU outside goes on waiting, or takes a lock that is free. -/
theorem Out.step (h : s.Out d) (htid : s.currentTid ≠ d)
    (he : e = .enter d ∨ e = .exit d ∨ e = .step d) (hs : s.step e = some s') :
    (∃ p, (p = .idle ∨ p = .test ∨ p = .spin) ∧ s' = s.goto d p)
      ∨ (s.value = 0 ∧ s' = { s.goto d .own with value := 1 }) := by
  obtain ⟨hdepth, hpc⟩ := h
  rcases he with rfl | rfl | rfl
  · simp only [step] at hs
    split_ifs at hs
    exact .inl ⟨.test, .inr (.inl rfl), (Option.some.inj hs).symm⟩
  · simp only [step, hdepth] at hs
    simp at hs
  · unfold step at hs
    rcases hpc with hpc | hpc | hpc
    · simp [hpc, advance] at hs
    · simp only [hpc, advance, if_pos htid] at hs
      exact .inl ⟨.spin, .inr (.inr rfl), (Option.some.inj hs).symm⟩
    · simp only [hpc, advance] at hs
      split_ifs at hs with hv
      exact .inr ⟨hv, (Option.some.inj hs).symm⟩

theorem Free.step (F : s.Free) (he : e = .enter d ∨ e = .exit d ∨ e = .step d)
    (hs : s.step e = some s') : s'.Inv := by
  have htid : s.currentTid ≠ d := by
    rw [F.tid]
    omega
  rcases (F.out d).step htid he hs with ⟨p, hp, rfl⟩ | ⟨-, rfl⟩
  · refine .inl ⟨fun a => ?_, F.tid, F.nesting⟩
    by_cases ha : a = d
    · subst ha
      exact (F.out a).self hp
    · exact (F.out a).goto ha p
  · refine .inr ⟨d, fun a ha => (F.out a).goto ha _, Nat.one_ne_zero, ?_⟩
    show Phase _ d (s.depth d) (Function.update s.pc d CritPc.own d)
    rw [Function.update_self, (F.out d).1]
    exact ⟨F.tid, F.nesting⟩

/-- A step of a CPU that does not hold the lock leaves it with the one that does. -/
theorem HeldBy.other (H : s.HeldBy c) (hd : d ≠ c) (he : e = .enter d ∨ e = .exit d ∨ e = .step d)
    (hs : s.step e = some s') : s'.HeldBy c := by
  have htid : s.currentTid ≠ d := by
    rcases H.phase.tid with h | h
    · rw [h]
      omega
    · rw [h]
      omega
  rcases (H.out d hd).step htid he hs with ⟨p, hp, rfl⟩ | ⟨hv, -⟩
  · refine ⟨fun a ha => ?_, H.value, ?_⟩
    · by_cases had : a = d
      · subst had
        exact (H.out a ha).self hp
      · exact (H.out a ha).goto had p
    · have hpc : (s.goto d p).pc c = s.pc c := Function.update_of_ne hd.symm _ _
      rw [hpc]
      exact H.phase
  · exact absurd hv H.value

/-- The holder at another point of the macros, the others where they were. -/
theorem HeldBy.move (H : s.HeldBy c) (hpc : ∀ d, d ≠ c → s'.pc d = s.pc d)
    (hdepth : ∀ d, d ≠ c → s'.depth d = s.depth d) (hv : s'.value ≠ 0)
    (hph : s'.Phase c (s'.depth c) (s'.pc c)) : s'.Inv := by
  refine .inr ⟨c, fun d hd => ?_, hv, hph⟩
  unfold Out
  rw [hpc d hd, hdepth d hd]
  exact H.out d hd

theorem HeldBy.moveTo (H : s.HeldBy c) {p : CritPc} (hpc : s'.pc = Function.update s.pc c p)
    (hdepth : ∀ d, d ≠ c → s'.depth d = s.depth d) (hv : s'.value ≠ 0)
    (hph : s'.Phase c (s'.depth c) p) : s'.Inv := by
  refine H.move (fun d hd => ?_) hdepth hv ?_
  · rw [hpc, Function.update_of_ne hd]
  · rw [hpc, Function.update_self]
    exact hph

theorem HeldBy.advance (H : s.HeldBy c) (hs : s.step (.step c) = some s') : s'.Inv := by
  have hph := H.phase
  have hv := H.value
  rw [step] at hs
  rcases hpc : s.pc c with _ | _ | _ | _ | _ | v | _ | v | _ | _ | _ <;> rw [hpc] at hs hph <;>
    simp only [Spinlock.advance, Option.some.injEq, reduceCtorEq] at hs
  case test =>
    obtain ⟨h1, h2, h3⟩ := hph
    rw [if_neg (not_not.2 h2)] at hs
    subst hs
    refine H.move (fun d hd => goto_pc_of_ne hd _) (fun _ _ => rfl) hv ?_
    simp only [goto, Function.update_self]
    exact ⟨by rw [if_neg (by omega)]; exact h2, h3⟩
  case spin => exact absurd hph id
  case own =>
    obtain ⟨h1, h2⟩ := hph
    subst hs
    exact H.moveTo rfl (fun _ _ => rfl) hv ⟨rfl, h2⟩
  case incLoad =>
    subst hs
    exact H.moveTo rfl (fun _ _ => rfl) hv hph
  case incStore =>
    obtain ⟨h1, h2⟩ := hph
    subst hs
    refine H.moveTo rfl (fun d hd => Function.update_of_ne hd _ _) hv ?_
    simp only [Function.update_self]
    refine ⟨Nat.succ_pos _, h1, ?_⟩
    show add32 v 1 = _
    rw [h2]
    unfold add32
    omega
  case decLoad =>
    obtain ⟨h1, h2, h3⟩ := hph
    subst hs
    exact H.moveTo rfl (fun _ _ => rfl) hv ⟨h1, h2, h3⟩
  case decStore =>
    obtain ⟨h1, h2, h3⟩ := hph
    subst hs
    refine H.moveTo rfl (fun _ _ => rfl) hv ⟨h1, h2, ?_⟩
    show sub32 v 1 = 0
    rw [h3, sub32_of_le le_rfl (by omega)]
  case testNesting =>
    obtain ⟨h1, h2, h3⟩ := hph
    rw [if_pos h3] at hs
    subst hs
    exact H.moveTo rfl (fun _ _ => rfl) hv ⟨h1, h2, h3⟩
  case clearTid =>
    obtain ⟨h1, -, h3⟩ := hph
    subst hs
    exact H.moveTo rfl (fun _ _ => rfl) hv ⟨h1, rfl, h3⟩
  case clearValue =>
    -- the lock is given up
    obtain ⟨h1, h2, h3⟩ := hph
    subst hs
    refine .inl ⟨fun d => ?_, h2, h3⟩
    by_cases hd : d = c
    · subst hd
      exact ⟨h1, .inl (Function.update_self _ _ _)⟩
    · exact (H.out d hd).goto hd .idle

theorem Inv.step (I : s.Inv) (hok : s.LeavesOutermost e) (hs : s.step e = some s') : s'.Inv := by
  obtain ⟨d, he⟩ : ∃ d, e = .enter d ∨ e = .exit d ∨ e = .step d := by
    rcases e with d | d | d
    · exact ⟨d, .inl rfl⟩
    · exact ⟨d, .inr (.inl rfl)⟩
    · exact ⟨d, .inr (.inr rfl)⟩
  rcases I with F | ⟨c, H⟩
  · exact F.step he hs
  by_cases hd : d = c
  swap
  · exact .inr ⟨c, H.other hd he hs⟩
  subst hd
  have hv := H.value
  have hph := H.phase
  rcases he with rfl | rfl | rfl
  · simp only [Spinlock.step] at hs
    split_ifs at hs with hpc
    cases hs
    rw [hpc] at hph
    exact H.moveTo rfl (fun _ _ => rfl) hv hph
  · have h1 : s.depth d = 1 := hok
    simp only [Spinlock.step] at hs
    split_ifs at hs with hpc
    cases hs
    rw [hpc.1, h1] at hph
    refine H.moveTo rfl (fun a ha => Function.update_of_ne ha _ _) hv ?_
    simp only [Function.update_self, h1]
    exact ⟨rfl, hph.2.1, hph.2.2⟩
  · exact H.advance hs

theorem init_inv : init.Inv := .inl ⟨fun _ => ⟨rfl, .inl rfl⟩, rfl, rfl⟩

theorem Inv.exclusive (I : s.Inv) : s.Exclusive := by
  rcases I with F | ⟨c, H⟩
  · intro a b ha
    have := (F.out a).1
    unfold Inside at ha
    omega
  · have h : ∀ a, s.Inside a → a = c := by
      intro a ha
      by_contra hne
      have := (H.out a hne).1
      unfold Inside at ha
      omega
    exact fun a b ha hb => (h a ha).trans (h b hb).symm

/-- At most one CPU is in a critical section in every state of a run whose every `EXIT_CRITICAL`
leaves an outermost section. -/
theorem exclusive_of_leavesOutermost (h : Reach Spinlock.step LeavesOutermost init s) :
    s.Exclusive :=
  (h.invariant init_inv fun _ _ _ I hok hs => I.step hok hs).exclusive

theorem exclusive_of_leavesOutermost_two_cpus : ∃ s, Reach Spinlock.step LeavesOutermost init s
    ∧ s.depth 1 = 1 ∧ s.Exclusive := by
  -- CPU 0 enters and leaves while CPU 1 waits, then CPU 1 enters
  have h : ((runEvents (guarded Spinlock.step LeavesOutermost) init
      ([.enter 0, .step 0, .enter 1, .step 1] ++ List.replicate 4 (.step 0)
        ++ .exit 0 :: List.replicate 5 (.step 0) ++ List.replicate 4 (.step 1))).map
      fun s => s.depth 1) = some 1 := by decide +kernel
  obtain ⟨s, hs, h1⟩ := Option.map_eq_some_iff.1 h
  exact ⟨s, .of_run hs, h1, exclusive_of_leavesOutermost (.of_run hs)⟩

/-- CPU 0 enters twice and leaves the inner section, and CPU 1 enters beside it. -/
theorem exclusive_inner_exit : ∃ s, Reach Spinlock.step anyStep init s ∧ ¬ s.Exclusive := by
  have h : ((runEvents (guarded Spinlock.step anyStep) init
      (.enter 0 :: List.replicate 5 (.step 0) ++ .enter 0 :: List.replicate 4 (.step 0)
        ++ .exit 0 :: List.replicate 4 (.step 0) ++ .enter 1 :: List.replicate 5 (.step 1))).map
      fun s => (s.depth 0, s.depth 1)) = some (1, 1) := by decide +kernel
  obtain ⟨s, hs, h1⟩ := Option.map_eq_some_iff.1 h
  rw [Prod.mk.injEq] at h1
  refine ⟨s, .of_run hs, fun hx => ?_⟩
  have : (0 : ℕ) = 1 := hx 0 1 (by unfold Inside; omega) (by unfold Inside; omega)
  omega

end Spinlock

end RTLKIM

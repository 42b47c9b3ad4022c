import RTLKIM.SmpBoot

/-!
# The CPUs start one by one

The main CPU is at one CPU at a time: those before it are counted, and those after it are off. Where it is says
what the CPU it is at may do, and from that what the boot keeps.
-/

namespace RTLKIM

variable {n mainCore : ℕ}

/-- How many of the CPUs before `k` are not the main one. -/
def smpRank (mainCore k : ℕ) : ℕ := if mainCore < k then k - 1 else k

theorem smpRank_succ {k : ℕ} (h : k ≠ mainCore) : smpRank mainCore (k + 1) = smpRank mainCore k + 1 := by
  unfold smpRank
  split_ifs <;> omega

theorem smpRank_main : smpRank mainCore (mainCore + 1) = smpRank mainCore mainCore := by
  unfold smpRank
  split_ifs <;> omega

theorem smpRank_lt {k : ℕ} (hk : k < n) (hmain : mainCore < n) (hne : k ≠ mainCore) :
    smpRank mainCore k + 1 < n := by
  unfold smpRank
  split_ifs <;> omega

theorem smpRank_inj {k k' : ℕ} (hk : k ≠ mainCore) (hk' : k' ≠ mainCore)
    (h : smpRank mainCore k = smpRank mainCore k') : k = k' := by
  unfold smpRank at h
  split_ifs at h <;> omega

/-- Those below `j` that are not the main one. -/
theorem length_filter_smpRank (j : ℕ) : ∀ n,
    ((List.range n).filter fun k => k ≠ mainCore ∧ k < j).length = smpRank mainCore (min n j)
  | 0 => by
    unfold smpRank
    simp
  | n + 1 => by
    rw [List.range_succ, List.filter_append, List.length_append, length_filter_smpRank j n]
    by_cases h : n ≠ mainCore ∧ n < j
    · rw [List.filter_cons_of_pos (by simpa using h), min_eq_left h.2.le, min_eq_left h.2, smpRank_succ h.1]
      rfl
    · rw [List.filter_cons_of_neg (by simpa using h), List.filter_nil, List.length_nil]
      unfold smpRank
      split_ifs <;> omega

/-- The CPU that the main one is at; past the loop, none. -/
def SmpMain.index (n : ℕ) : SmpMain → ℕ
  | .head i | .init i _ | .startup i _ | .check i _ | .second i _ | .wait i _ => i
  | .finish | .all | .done => n

namespace SmpBoot

/-- A CPU that STARTUP has been sent to, when `current` was in `init_cpu_count`. -/
def Started (current initCpuCount : ℕ) : SmpAp → Prop
  | .waitStartup | .loader => initCpuCount = current
  | .core stack => stack = current ∧ initCpuCount = current
  | .count stack v => stack = current ∧ v = current ∧ initCpuCount = current
  | .spin stack => stack = current ∧ initCpuCount = current + 1
  | _ => False

/-- What the CPU that the main one is at has come to. -/
def Stage (n mainCore : ℕ) (s : SmpBoot) : SmpMain → Prop
  | .head i => s.ap i = .off ∧ s.initCpuCount = smpRank mainCore i + 1
  | .init i current => i < n ∧ i ≠ mainCore ∧ current = smpRank mainCore i + 1 ∧ s.ap i = .off
    ∧ s.initCpuCount = current
  | .startup i current => i < n ∧ i ≠ mainCore ∧ current = smpRank mainCore i + 1 ∧ s.ap i = .waitStartup
    ∧ s.initCpuCount = current
  | .check i current | .second i current | .wait i current => i < n ∧ i ≠ mainCore
    ∧ current = smpRank mainCore i + 1 ∧ Started current s.initCpuCount (s.ap i)
  | .finish | .all | .done => s.ap n = .off ∧ s.initCpuCount = smpRank mainCore n + 1

structure Inv (n mainCore : ℕ) (s : SmpBoot) : Prop where
  le : s.main.index n ≤ n
  past : ∀ k < s.main.index n, k ≠ mainCore →
    (s.ap k).Counted ∧ (s.ap k).stack = some (smpRank mainCore k + 1)
  off : ∀ k, k = mainCore ∨ s.main.index n < k → s.ap k = .off
  stage : Stage n mainCore s s.main
  ended : s.initSeqEnd = true ↔ s.main = .all ∨ s.main = .done
  scheduled : ∀ k, (s.ap k).Scheduled → s.initSeqEnd = true

theorem start_inv : Inv n mainCore start :=
  ⟨Nat.zero_le n, fun _ hk => absurd hk (Nat.not_lt_zero _), fun _ _ => rfl,
    ⟨rfl, by unfold smpRank; simp [start]⟩, by simp [start], fun _ h => h.elim⟩

variable {s : SmpBoot}

theorem Started.startup {current count : ℕ} : ∀ {c : SmpAp}, Started current count c →
    Started current count c.startup
  | .waitStartup, h | .loader, h | .core _, h | .count _ _, h | .spin _, h => h

theorem Started.counted {current count : ℕ} (hne : current ≠ count) : ∀ {c : SmpAp},
    Started current count c → c.Counted ∧ c.stack = some current ∧ count = current + 1
  | .waitStartup, h | .loader, h => absurd h.symm hne
  | .core _, h => absurd h.2.symm hne
  | .count _ _, h => absurd h.2.2.symm hne
  | .spin _, h => ⟨trivial, congrArg some h.1, h.2⟩

/-! ## The main CPU -/

/-- The main CPU goes on at the same CPU, which becomes `c`. -/
theorem Inv.stay (h : Inv n mainCore s) (pc : SmpMain) {c : SmpAp} (hindex : pc.index n = s.main.index n)
    (hne : s.main.index n ≠ mainCore) (hold : ¬ (s.main = .all ∨ s.main = .done)) (hnew : ¬ (pc = .all ∨ pc = .done))
    (hc : ¬ c.Scheduled)
    (hstage : Stage n mainCore { s with ap := Function.update s.ap (s.main.index n) c, main := pc } pc) :
    Inv n mainCore { s with ap := Function.update s.ap (s.main.index n) c, main := pc } := by
  refine ⟨hindex.trans_le h.le, fun k hk hkm => ?_, fun k hk => ?_, hstage,
    h.ended.trans (iff_of_false hold hnew), fun k hk => ?_⟩
  · dsimp only at hk ⊢
    rw [hindex] at hk
    rw [Function.update_of_ne hk.ne]
    exact h.past k hk hkm
  · dsimp only at hk ⊢
    rw [hindex] at hk
    rw [Function.update_of_ne (by rcases hk with rfl | hk <;> omega)]
    exact h.off k hk
  · dsimp only at hk ⊢
    by_cases hki : k = s.main.index n
    · rw [hki, Function.update_self] at hk
      exact absurd hk hc
    · rw [Function.update_of_ne hki] at hk
      exact h.scheduled k hk

/-- The main CPU comes to the next CPU. -/
theorem Inv.next (h : Inv n mainCore s) {i : ℕ} (hi : s.main.index n = i) (hlt : i < n)
    (hold : ¬ (s.main = .all ∨ s.main = .done)) (hcount : s.initCpuCount = smpRank mainCore (i + 1) + 1)
    (hpast : i ≠ mainCore → (s.ap i).Counted ∧ (s.ap i).stack = some (smpRank mainCore i + 1)) :
    Inv n mainCore { s with main := .head (i + 1) } := by
  refine ⟨hlt, fun k hk hkm => ?_, fun k hk => h.off k ?_, ⟨h.off (i + 1) (.inr ?_), hcount⟩,
    h.ended.trans (iff_of_false hold (by simp)), h.scheduled⟩
  · rcases Nat.lt_succ_iff_lt_or_eq.1 hk with hlt | rfl
    · exact h.past k (hi ▸ hlt) hkm
    · exact hpast hkm
  · exact hk.imp_right fun hk => hi ▸ Nat.lt_of_succ_lt hk
  · rw [hi]
    exact Nat.lt_succ_self i

/-- The main CPU goes on, and the CPU it is at is left as it is. -/
theorem Inv.go (h : Inv n mainCore s) {pc : SmpMain} (hindex : pc.index n = s.main.index n)
    (hne : s.main.index n ≠ mainCore) (hold : ¬ (s.main = .all ∨ s.main = .done)) (hnew : ¬ (pc = .all ∨ pc = .done))
    (hc : ¬ (s.ap (s.main.index n)).Scheduled) (hstage : Stage n mainCore { s with main := pc } pc) :
    Inv n mainCore { s with main := pc } := by
  have hstay := h.stay pc (c := s.ap (s.main.index n)) hindex hne hold hnew hc
  rw [Function.update_eq_self] at hstay
  exact hstay hstage

/-- The main CPU goes on past the loop. -/
theorem Inv.over (h : Inv n mainCore s) (hi : s.main.index n = n) {pc : SmpMain} (hpc : pc.index n = n)
    {seqEnd : Bool} (hstage : Stage n mainCore s pc) (hended : seqEnd = true ↔ pc = .all ∨ pc = .done)
    (hend : s.initSeqEnd = true → seqEnd = true) :
    Inv n mainCore { s with initSeqEnd := seqEnd, main := pc } := by
  refine ⟨hpc.le, fun k hk => h.past k ?_, fun k hk => h.off k (hk.imp_right ?_), ?_, hended,
    fun k hk => hend (h.scheduled k hk)⟩
  · rw [hi]
    exact hk.trans_eq hpc
  · rw [hi]
    exact hpc.symm.trans_lt
  · cases pc <;> exact hstage

theorem Started.not_scheduled {current count : ℕ} : ∀ {c : SmpAp}, Started current count c → ¬ c.Scheduled
  | .waitStartup, _ | .loader, _ | .core _, _ | .count _ _, _ | .spin _, _ => id

/-- The main CPU sends STARTUP to the CPU it is at, and it comes through or not. -/
theorem Inv.sendStartup (h : Inv n mainCore s) (lost : Bool) {i current : ℕ} {pc : SmpMain}
    (hi : s.main.index n = i) (hpc : pc.index n = i) (hold : ¬ (s.main = .all ∨ s.main = .done))
    (hnew : ¬ (pc = .all ∨ pc = .done)) (hmain : i ≠ mainCore)
    (hstarted : Started current s.initCpuCount (s.ap i))
    (hstage : ∀ ap : ℕ → SmpAp, Started current s.initCpuCount (ap i) →
      Stage n mainCore ⟨s.initCpuCount, s.initSeqEnd, pc, ap⟩ pc) :
    Inv n mainCore { s.sendStartup lost i with main := pc } := by
  subst hi
  unfold SmpBoot.sendStartup
  split_ifs
  · exact h.go hpc hmain hold hnew hstarted.not_scheduled (hstage _ hstarted)
  · refine h.stay pc hpc hmain hold hnew hstarted.startup.not_scheduled (hstage _ ?_)
    rw [Function.update_self]
    exact hstarted.startup

theorem Inv.stepMain (h : Inv n mainCore s) (lost : Bool) : Inv n mainCore (s.stepMain n mainCore lost) := by
  have hstage := h.stage
  unfold SmpBoot.stepMain
  cases hpc : s.main with
  | head i =>
    rw [hpc] at hstage
    have hi : s.main.index n = i := by rw [hpc]; rfl
    dsimp only
    split_ifs with hlt hmain
    · refine h.next hi hlt (by simp [hpc]) ?_ fun hne => absurd hmain hne
      rw [hstage.2, hmain, smpRank_main]
    · exact h.go hi.symm (hi ▸ hmain) (by simp [hpc]) (by simp) (by rw [hi, hstage.1]; exact id)
        ⟨hlt, hmain, hstage.2, hstage.1, rfl⟩
    · have hle := h.le
      have hn : i = n := by omega
      refine h.over (hi.trans hn) rfl (hn ▸ hstage) (h.ended.trans (by simp [hpc])) id
  | init i current =>
    rw [hpc] at hstage
    obtain ⟨hlt, hmain, hcur, -, hcount⟩ := hstage
    have hi : s.main.index n = i := by rw [hpc]; rfl
    have hstay := h.stay (.startup i current) (c := .waitStartup) hi.symm (hi ▸ hmain) (by simp [hpc])
      (by simp) id
    rw [hi] at hstay
    exact hstay ⟨hlt, hmain, hcur, Function.update_self .., hcount⟩
  | startup i current =>
    rw [hpc] at hstage
    obtain ⟨hlt, hmain, hcur, hap, hcount⟩ := hstage
    have hi : s.main.index n = i := by rw [hpc]; rfl
    have hstarted : Started current s.initCpuCount (s.ap i) := by
      rw [hap]
      exact hcount
    exact h.sendStartup lost hi rfl (by simp [hpc]) (by simp) hmain hstarted
      fun _ hap => ⟨hlt, hmain, hcur, hap⟩
  | check i current =>
    rw [hpc] at hstage
    have hi : s.main.index n = i := by rw [hpc]; rfl
    have hstarted := hstage.2.2.2
    dsimp only
    split_ifs with heq
    · exact h.go hi.symm (hi ▸ hstage.2.1) (by simp [hpc]) (by simp) (hi ▸ hstarted.not_scheduled) hstage
    · exact h.go hi.symm (hi ▸ hstage.2.1) (by simp [hpc]) (by simp) (hi ▸ hstarted.not_scheduled) hstage
  | second i current =>
    rw [hpc] at hstage
    obtain ⟨hlt, hmain, hcur, hstarted⟩ := hstage
    have hi : s.main.index n = i := by rw [hpc]; rfl
    exact h.sendStartup lost hi rfl (by simp [hpc]) (by simp) hmain hstarted
      fun _ hap => ⟨hlt, hmain, hcur, hap⟩
  | wait i current =>
    rw [hpc] at hstage
    obtain ⟨hlt, hmain, hcur, hstarted⟩ := hstage
    have hi : s.main.index n = i := by rw [hpc]; rfl
    dsimp only
    split_ifs with heq
    · exact h
    · obtain ⟨hcounted, hstack, hcount⟩ := hstarted.counted heq
      refine h.next hi hlt (by simp [hpc]) ?_ fun _ => ⟨hcounted, hcur ▸ hstack⟩
      rw [hcount, hcur, smpRank_succ hmain]
  | finish =>
    rw [hpc] at hstage
    have hi : s.main.index n = n := by rw [hpc]; rfl
    exact h.over hi rfl hstage (by simp) fun _ => rfl
  | all =>
    rw [hpc] at hstage
    have hi : s.main.index n = n := by rw [hpc]; rfl
    dsimp only
    split_ifs with hlt
    · exact h
    · exact h.over hi rfl hstage (h.ended.trans (by simp [hpc])) id
  | done => exact h

/-! ## The others -/

/-- A CPU that is on and not counted is the one that the main CPU is at. -/
theorem Inv.current (h : Inv n mainCore s) {k : ℕ} (hoff : s.ap k ≠ .off) (hcounted : ¬ (s.ap k).Counted) :
    k = s.main.index n := by
  by_contra hne
  rcases Nat.lt_or_gt_of_ne hne with hlt | hlt
  · by_cases hmain : k = mainCore
    · exact hoff (h.off k (.inl hmain))
    · exact hcounted (h.past k hlt hmain).1
  · exact hoff (h.off k (.inr hlt))

/-- When it has had STARTUP, the main CPU does not mind how far it is. -/
theorem Inv.started (h : Inv n mainCore s) {k : ℕ} (hoff : s.ap k ≠ .off) (hwait : s.ap k ≠ .waitStartup)
    (hcounted : ¬ (s.ap k).Counted) :
    k = s.main.index n ∧ k ≠ mainCore ∧ ∃ current ≤ n, Started current s.initCpuCount (s.ap k)
      ∧ ∀ count (ap : ℕ → SmpAp), Started current count (ap k) →
        Stage n mainCore ⟨count, s.initSeqEnd, s.main, ap⟩ s.main := by
  have hk := h.current hoff hcounted
  refine ⟨hk, ?_⟩
  have hstage := h.stage
  cases hpc : s.main with
  | head i | init i current | finish | all | done =>
    rw [hpc] at hstage hk
    rw [hk] at hoff
    first
      | exact absurd hstage.1 hoff
      | exact absurd hstage.2.2.2.1 hoff
  | startup i current =>
    rw [hpc] at hstage hk
    rw [hk] at hwait
    exact absurd hstage.2.2.2.1 hwait
  | check i current | second i current | wait i current =>
    rw [hpc] at hstage hk
    obtain rfl : k = i := hk
    obtain ⟨hlt, hmain, hcur, hstarted⟩ := hstage
    have hle : current ≤ n := by
      rw [hcur]
      unfold smpRank
      split_ifs <;> omega
    exact ⟨hmain, current, hle, hstarted, fun count ap hap => ⟨hlt, hmain, hcur, hap⟩⟩

/-- The CPU that the main one is at becomes `c`. -/
theorem Inv.advance (h : Inv n mainCore s) {k current count : ℕ} {c : SmpAp} (hk : k = s.main.index n)
    (hne : k ≠ mainCore) (hstage : ∀ count (ap : ℕ → SmpAp), Started current count (ap k) →
      Stage n mainCore ⟨count, s.initSeqEnd, s.main, ap⟩ s.main) (hc : Started current count c) :
    Inv n mainCore { s with initCpuCount := count, ap := Function.update s.ap k c } := by
  refine ⟨h.le, fun k' hk' hne' => ?_, fun k' hk' => ?_, hstage _ _ ?_, h.ended, fun k' hk' => ?_⟩
  · dsimp only at hk' ⊢
    rw [Function.update_of_ne (by omega)]
    exact h.past k' hk' hne'
  · dsimp only at hk' ⊢
    rw [Function.update_of_ne (by rcases hk' with rfl | hk' <;> omega)]
    exact h.off k' hk'
  · rw [Function.update_self]
    exact hc
  · dsimp only at hk' ⊢
    by_cases heq : k' = k
    · rw [heq, Function.update_self] at hk'
      exact absurd hk' hc.not_scheduled
    · rw [Function.update_of_ne heq] at hk'
      exact h.scheduled k' hk'

theorem Inv.stepAp (h : Inv n mainCore s) (hn : n + 1 < 2 ^ 32) (k : ℕ) : Inv n mainCore (s.stepAp k) := by
  unfold SmpBoot.stepAp
  cases hap : s.ap k with
  | off => exact h
  | waitStartup => exact h
  | sched stack => exact h
  | loader =>
    obtain ⟨hk, hne, current, hle, hstarted, hstage⟩ := h.started (k := k) (by simp [hap]) (by simp [hap])
      (by rw [hap]; exact id)
    rw [hap] at hstarted
    exact h.advance hk hne hstage ⟨hstarted, hstarted⟩
  | core stack =>
    obtain ⟨hk, hne, current, hle, hstarted, hstage⟩ := h.started (k := k) (by simp [hap]) (by simp [hap])
      (by rw [hap]; exact id)
    rw [hap] at hstarted
    exact h.advance hk hne hstage ⟨hstarted.1, hstarted.2, hstarted.2⟩
  | count stack v =>
    obtain ⟨hk, hne, current, hle, hstarted, hstage⟩ := h.started (k := k) (by simp [hap]) (by simp [hap])
      (by rw [hap]; exact id)
    rw [hap] at hstarted
    obtain ⟨hstack, hv, hcount⟩ := hstarted
    have hadd : add32 v 1 = current + 1 := by
      rw [hv]
      exact add32_of_lt (by omega)
    exact h.advance hk hne hstage ⟨hstack, hadd⟩
  | spin stack =>
    dsimp only
    split_ifs with hend
    · have hover := h.ended.1 hend
      have hstage := h.stage
      have hn : s.main.index n = n ∧ s.ap n = .off := by
        rcases hover with hpc | hpc <;> rw [hpc] at hstage ⊢ <;> exact ⟨rfl, hstage.1⟩
      have hk : k < n ∧ k ≠ mainCore := by
        have hoff : s.ap k ≠ .off := by simp [hap]
        refine ⟨?_, fun hmain => hoff (h.off k (.inl hmain))⟩
        by_contra hge
        rcases Nat.lt_or_eq_of_le (Nat.not_lt.1 hge) with hlt | heq
        · exact hoff (h.off k (.inr (hn.1.trans_lt hlt)))
        · exact hoff (heq ▸ hn.2)
      have hpast := h.past k (hk.1.trans_eq hn.1.symm) hk.2
      refine ⟨h.le, fun k' hk' hne' => ?_, fun k' hk' => ?_, ?_, h.ended, fun _ _ => hend⟩
      · dsimp only
        by_cases heq : k' = k
        · rw [heq, Function.update_self]
          rw [hap] at hpast
          exact hpast
        · rw [Function.update_of_ne heq]
          exact h.past k' hk' hne'
      · dsimp only at hk' ⊢
        rw [Function.update_of_ne (by rcases hk' with rfl | hk' <;> omega)]
        exact h.off k' hk'
      · dsimp only
        rcases hover with hpc | hpc <;> rw [hpc] at hstage ⊢ <;>
          exact ⟨(Function.update_of_ne hk.1.ne' _ _).trans hstage.1, hstage.2⟩
    · exact h

/-! ## What the boot keeps -/

/-- A CPU that has a stack is one of the others, up to the one that the main CPU is at. -/
theorem Inv.stack_eq (h : Inv n mainCore s) {k stack : ℕ} (hs : (s.ap k).stack = some stack) :
    k < n ∧ k ≠ mainCore ∧ stack = smpRank mainCore k + 1 := by
  have hoff : s.ap k ≠ .off := fun hap => by
    rw [hap] at hs
    exact Option.some_ne_none _ hs.symm
  have hmain : k ≠ mainCore := fun hm => hoff (h.off k (.inl hm))
  have hle := h.le
  rcases Nat.lt_trichotomy k (s.main.index n) with hlt | heq | hgt
  · refine ⟨by omega, hmain, ?_⟩
    exact Option.some_inj.1 (hs.symm.trans (h.past k hlt hmain).2)
  · have hstage := h.stage
    rw [heq] at hs hoff
    cases hpc : s.main with
    | head i | init i current | finish | all | done =>
      rw [hpc] at hstage hoff
      first
        | exact absurd hstage.1 hoff
        | exact absurd hstage.2.2.2.1 hoff
    | startup i current =>
      rw [hpc] at hstage hs
      rw [show s.ap (SmpMain.index n (.startup i current)) = .waitStartup from hstage.2.2.2.1] at hs
      exact absurd hs nofun
    | check i current | second i current | wait i current =>
      rw [hpc] at hstage hs heq
      obtain ⟨hlt, -, hcur, hstarted⟩ := hstage
      have hki : k = i := heq
      change (s.ap i).stack = some stack at hs
      refine ⟨hki ▸ hlt, hmain, ?_⟩
      rw [hki, ← hcur]
      cases hap : s.ap i <;> rw [hap] at hs hstarted <;>
        first
          | exact (Option.some_inj.1 hs).symm.trans hstarted.1
          | exact absurd hs.symm (Option.some_ne_none stack)
          | exact hstarted.elim
  · exact absurd (h.off k (.inr hgt)) hoff

theorem Inv.counted_current (h : Inv n mainCore s) :
    (s.ap (s.main.index n)).Counted ∧ s.main.index n < n ∧ s.main.index n ≠ mainCore
        ∧ s.initCpuCount = smpRank mainCore (s.main.index n + 1) + 1
      ∨ ¬ (s.ap (s.main.index n)).Counted ∧ s.initCpuCount = smpRank mainCore (s.main.index n) + 1 := by
  have hstage := h.stage
  cases hpc : s.main with
  | head i | finish | all | done =>
    rw [hpc] at hstage
    obtain ⟨hap, hcount⟩ := hstage
    refine .inr ⟨fun hc => ?_, hcount⟩
    dsimp only [SmpMain.index] at hc
    rw [hap] at hc
    exact hc
  | init i current | startup i current =>
    rw [hpc] at hstage
    obtain ⟨-, -, hcur, hap, hcount⟩ := hstage
    refine .inr ⟨fun hc => ?_, hcount.trans hcur⟩
    dsimp only [SmpMain.index] at hc
    rw [hap] at hc
    exact hc
  | check i current | second i current | wait i current =>
    rw [hpc] at hstage
    obtain ⟨hlt, hne, hcur, hstarted⟩ := hstage
    dsimp only [SmpMain.index]
    cases hap : s.ap i with
    | waitStartup | loader | core stack =>
      rw [hap] at hstarted
      first
        | exact .inr ⟨id, hstarted.trans hcur⟩
        | exact .inr ⟨id, hstarted.2.trans hcur⟩
    | count stack v =>
      rw [hap] at hstarted
      exact .inr ⟨id, hstarted.2.2.trans hcur⟩
    | spin stack =>
      rw [hap] at hstarted
      refine .inl ⟨trivial, hlt, hne, ?_⟩
      rw [hstarted.2, hcur, smpRank_succ hne]
    | off | sched stack =>
      rw [hap] at hstarted
      exact hstarted.elim

/-- Those that are counted are the first ones. -/
theorem Inv.counted_iff (h : Inv n mainCore s) : ∃ j ≤ n, s.main.index n ≤ j
    ∧ (∀ k, (s.ap k).Counted ↔ k ≠ mainCore ∧ k < j) ∧ s.initCpuCount = smpRank mainCore j + 1 := by
  have hmain : ¬ (s.ap mainCore).Counted := by
    rw [h.off mainCore (.inl rfl)]
    exact id
  have hout (k : ℕ) (hk : s.main.index n < k) : ¬ (s.ap k).Counted := by
    rw [h.off k (.inr hk)]
    exact id
  rcases h.counted_current with ⟨hc, hlt, hne, hcount⟩ | ⟨hc, hcount⟩
  · refine ⟨s.main.index n + 1, hlt, Nat.le_succ _, fun k => ⟨fun hk => ⟨?_, ?_⟩, fun ⟨hkm, hk⟩ => ?_⟩, hcount⟩
    · rintro rfl
      exact hmain hk
    · by_contra hge
      exact hout k (by omega) hk
    · rcases Nat.lt_succ_iff_lt_or_eq.1 hk with hk | rfl
      · exact (h.past k hk hkm).1
      · exact hc
  · refine ⟨s.main.index n, h.le, le_refl _, fun k => ⟨fun hk => ⟨?_, ?_⟩, fun ⟨hkm, hk⟩ => (h.past k hk hkm).1⟩,
      hcount⟩
    · rintro rfl
      exact hmain hk
    · by_contra hge
      rcases Nat.lt_or_eq_of_le (Nat.not_lt.1 hge) with hgt | heq
      · exact hout k hgt hk
      · exact hc (heq ▸ hk)

/-- Past the loop all are counted. -/
theorem Inv.all_counted (h : Inv n mainCore s) (hpc : s.main = .finish ∨ s.main = .all ∨ s.main = .done)
    {k : ℕ} (hk : k < n) (hne : k ≠ mainCore) : (s.ap k).Counted := by
  have hi : s.main.index n = n := by
    rcases hpc with hpc | hpc | hpc <;> rw [hpc] <;> rfl
  exact (h.past k (hk.trans_eq hi.symm) hne).1

theorem Inv.safe (h : Inv n mainCore s) (hmain : mainCore < n) : Safe n mainCore s := by
  refine ⟨fun k stack hs => ?_, fun k k' stack hs hs' => ?_, fun i current hpc => ?_,
    fun k k' hk hk' => ?_, ?_, fun k hk k' hk' hne => ?_, fun hpc k hk hne => ?_⟩
  · obtain ⟨hlt, hne, rfl⟩ := h.stack_eq hs
    exact ⟨Nat.succ_pos _, smpRank_lt hlt hmain hne⟩
  · obtain ⟨-, hne, heq⟩ := h.stack_eq hs
    obtain ⟨-, hne', heq'⟩ := h.stack_eq hs'
    exact smpRank_inj hne hne' (by omega)
  · have hstage := h.stage
    rw [hpc] at hstage
    exact hstage.2.2.2.1
  · have hcur (j : ℕ) (hj : (s.ap j).Starting) : j = s.main.index n := by
      refine h.current (fun hap => ?_) (fun hc => ?_)
      · rw [hap] at hj
        exact hj
      · cases hap : s.ap j <;> rw [hap] at hj hc <;> first | exact hj | exact hc
    exact (hcur k hk).trans (hcur k' hk').symm
  · obtain ⟨j, hj, -, hcounted, hcount⟩ := h.counted_iff
    have hlength : ((List.range n).filter fun k => k ≠ mainCore ∧ k < j).length = smpRank mainCore (min n j) :=
      length_filter_smpRank j n
    rw [min_eq_right hj] at hlength
    simp only [hcounted]
    omega
  · exact h.all_counted (.inr (h.ended.1 (h.scheduled k hk))) hk' hne
  · exact h.all_counted hpc hk hne

/-- The whole boot, in any order of steps. -/
theorem reach_safe (hmain : mainCore < n) (hn : n + 1 < 2 ^ 32)
    (h : Reach (step n mainCore) anyStep start s) :
    Safe n mainCore s ∧ (s.main = .all → ∀ lost, (s.stepMain n mainCore lost).main = .done) := by
  have hinv : Inv n mainCore s := by
    refine h.invariant start_inv fun s e s' hs _ he => ?_
    cases e with
    | main => exact Option.some_inj.1 he ▸ hs.stepMain false
    | lost => exact Option.some_inj.1 he ▸ hs.stepMain true
    | ap k => exact Option.some_inj.1 he ▸ hs.stepAp hn k
  refine ⟨hinv.safe hmain, fun hpc lost => ?_⟩
  have hstage := hinv.stage
  rw [hpc] at hstage
  have hcount : s.initCpuCount = n := by
    rw [hstage.2]
    unfold smpRank
    rw [if_pos hmain]
    omega
  unfold SmpBoot.stepMain
  rw [hpc, hcount]
  simp

/-- Three CPUs, of which 1 is the main one. The first STARTUP to CPU 0 is lost. -/
theorem reach_safe_three : ∃ s, Reach (step 3 1) anyStep start s ∧ Safe 3 1 s
    ∧ s.main = .done ∧ s.ap 0 = .sched 1 ∧ s.ap 2 = .sched 2 := by
  have h : (runEvents (guarded (step 3 1) anyStep) start
      ([.main, .main, .lost, .ap 0, .main, .main, .ap 0, .ap 0, .ap 0, .main, .ap 2, .main, .main, .main,
        .main, .main, .main, .main, .ap 2, .ap 2, .ap 2, .main, .ap 0, .main, .main, .ap 0, .main,
        .ap 2])).map (fun s => (s.main, s.ap 0, s.ap 2)) = some (.done, .sched 1, .sched 2) := by
    decide +kernel
  obtain ⟨s, hs, heq⟩ := Option.map_eq_some_iff.1 h
  have hreach := Reach.of_run hs
  simp only [Prod.mk.injEq] at heq
  exact ⟨s, hreach, (reach_safe (by decide) (by decide) hreach).1, heq.1, heq.2.1, heq.2.2⟩

end SmpBoot

end RTLKIM
